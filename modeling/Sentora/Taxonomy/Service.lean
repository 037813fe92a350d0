import Sentora.Library.Adapters
import Sentora.Taxonomy.Documents

/-!
# The taxonomy service

What `domains/taxonomy/service.py` and `promote_to_taxonomy` of
`domains/library/service.py` do to the taxonomy, cut at their calls of the database and
of the matcher cache.  The ids of new documents are given.
-/

namespace Sentora.Taxonomy

open Lib Process

/-- The calls, with what they are given. -/
inductive TaxonomyOp where
  | getCategory (key : String)
  | insertCategory (doc : CategoryDoc)
  | updateEntries (oldKey : String) (newKey newDisplay : Option String)
  | updateCategoryDoc (oldKey : String) (newKey newDisplay : Option String)
  | deleteEntries (key : String)
  | deleteCategoryDoc (key : String)
  | getById (entryId : String)
  | insertEntry (entry : SoftwareEntry)
  | updateEntry (entryId : String) (r : SoftwareEntryUpdateRequest)
  | deleteEntry (entryId : String)
  | findByName (name : String)
  | pushPatterns (entryId : String) (patterns : List String)
  | invalidate
deriving DecidableEq

/-- The errors of the services, and any exception from below them. -/
inductive TaxonomyFailure where
  | taxonomy (message : String)
  | entryNotFound (message : String)
  | libraryEntryNotFound (message : String)
  | library (message : String)
  | raised
deriving DecidableEq

abbrev TaxonomyM := ExceptT TaxonomyFailure (Process TaxonomyStore TaxonomyOp)

def call {α : Type} (op : TaxonomyOp) (f : TaxonomyStore → TaxonomyStore × α) : TaxonomyM α :=
  liftM (atomic op f : Process TaxonomyStore TaxonomyOp α)

def query {α : Type} (op : TaxonomyOp) (f : TaxonomyStore → α) : TaxonomyM α :=
  call op fun s => (s, f s)

def command (op : TaxonomyOp) (f : TaxonomyStore → TaxonomyStore) : TaxonomyM Unit :=
  call op fun s => (f s, ())

def attempt (op : TaxonomyOp) (f : TaxonomyStore → Option TaxonomyStore) : TaxonomyM Unit := do
  let done ← call op fun s => ((f s).getD s, (f s).isSome)
  throwIf (!done) .raised

/-- `invalidate_taxonomy_cache`, which leaves the documents. -/
def invalidate : TaxonomyM Unit := command .invalidate id

def categoryNotFound (key : String) : TaxonomyFailure :=
  .taxonomy ("Category '" ++ key ++ "' not found")

def categoryExists (key : String) : TaxonomyFailure :=
  .taxonomy ("Category '" ++ key ++ "' already exists")

def entryNotFound (entryId : String) (when_ : String := "") : TaxonomyFailure :=
  .entryNotFound ("Taxonomy entry '" ++ entryId ++ "' not found" ++ when_)

structure CategoryCreateRequest where
  id : String
  key : String
  display : String
deriving DecidableEq

def createCategory (r : CategoryCreateRequest) : TaxonomyM CategorySummary := do
  let existing ← query (.getCategory r.key) (getCategory r.key)
  throwIf existing.isSome (categoryExists r.key)
  let doc : CategoryDoc := ⟨r.id, r.key, r.display⟩
  attempt (.insertCategory doc) (insertCategory doc)
  pure ⟨r.key, r.display, 0⟩

structure CategoryUpdateRequest where
  key : Option String := none
  display : Option String := none
deriving DecidableEq

structure CategoryUpdateResponse where
  oldKey : String
  newKey : String
  display : String
  entriesUpdated : Nat
deriving DecidableEq

/-- `cat_doc.get("display") or category_key`. -/
def CategoryDoc.label (doc : CategoryDoc) : String :=
  if doc.display = "" then doc.key else doc.display

def rollBack (categoryKey : String) (catDoc : CategoryDoc) (r : CategoryUpdateRequest) :
    TaxonomyM Unit := do
  let rollbackKey := r.key.map fun _ => categoryKey
  let rollbackDisplay := r.display.map fun _ => catDoc.label
  let newKey := r.key.getD categoryKey
  let _ ← call (.updateEntries newKey rollbackKey rollbackDisplay)
    (updateCategoryEntries newKey rollbackKey rollbackDisplay)

/-- `update_category`, where the database may fail at the document of the category. -/
def updateCategory (fails : Bool) (categoryKey : String) (r : CategoryUpdateRequest) :
    TaxonomyM CategoryUpdateResponse := do
  throwIf (r.key.isNone && r.display.isNone) (.taxonomy "Provide at least one of: key, display")
  let found ← query (.getCategory categoryKey) (getCategory categoryKey)
  let catDoc ← orThrow (categoryNotFound categoryKey) found
  let modified ← call (.updateEntries categoryKey r.key r.display)
    (updateCategoryEntries categoryKey r.key r.display)
  let written ← call (.updateCategoryDoc categoryKey r.key r.display) fun s =>
    if fails then (s, false)
    else
      let result := updateCategoryDoc categoryKey r.key r.display s
      (result.getD s, result.isSome)
  if written then do
    invalidate
    pure ⟨categoryKey, r.key.getD categoryKey, r.display.getD catDoc.label, modified⟩
  else do
    rollBack categoryKey catDoc r
    throw .raised

structure CategoryDeleteResponse where
  key : String
  entriesDeleted : Nat
deriving DecidableEq

def deleteCategory (categoryKey : String) : TaxonomyM CategoryDeleteResponse := do
  let found ← query (.getCategory categoryKey) (getCategory categoryKey)
  let _ ← orThrow (categoryNotFound categoryKey) found
  let deleted ← call (.deleteEntries categoryKey) (deleteCategoryEntries categoryKey)
  command (.deleteCategoryDoc categoryKey) (deleteCategoryDoc categoryKey)
  invalidate
  pure ⟨categoryKey, deleted⟩

structure SoftwareEntryCreateRequest where
  id : String
  categoryId : String
  name : String
  patterns : List String
  publisher : Option String := none
  category : String
  categoryDisplay : String := ""
  subcategory : Option String := none
  industry : List String := []
  description : Option String := none
  isUniversal : Bool := false
deriving DecidableEq

def ensureCategory (id key display : String) : TaxonomyM Unit := do
  let existing ← query (.getCategory key) (getCategory key)
  if existing.isNone then
    let doc : CategoryDoc := ⟨id, key, display⟩
    attempt (.insertCategory doc) (insertCategory doc)
  else pure ()

def SoftwareEntryCreateRequest.entry (r : SoftwareEntryCreateRequest) : SoftwareEntry where
  id := r.id
  name := r.name
  patterns := r.patterns
  publisher := r.publisher
  category := r.category
  categoryDisplay := r.categoryDisplay
  subcategory := r.subcategory
  industry := r.industry
  description := r.description
  isUniversal := r.isUniversal
  userAdded := true

def addEntry (r : SoftwareEntryCreateRequest) : TaxonomyM SoftwareEntry := do
  ensureCategory r.categoryId r.category
    (if r.categoryDisplay = "" then r.category else r.categoryDisplay)
  attempt (.insertEntry r.entry) (insertEntry r.entry)
  invalidate
  pure r.entry

/-- `get_by_id`, with what is raised where there is no document or it is not valid. -/
def fetchEntry (entryId : String) (failure : TaxonomyFailure) : TaxonomyM SoftwareEntry := do
  let found ← query (.getById entryId) (getById entryId)
  let doc ← orThrow failure found
  orThrow .raised (docToEntity doc)

def editEntry (entryId : String) (r : SoftwareEntryUpdateRequest) : TaxonomyM SoftwareEntry :=
  if r = {} then fetchEntry entryId (entryNotFound entryId)
  else do
    let modified ← call (.updateEntry entryId r) (updateEntry entryId r)
    throwIf (!modified) (entryNotFound entryId)
    let entry ← fetchEntry entryId (entryNotFound entryId " after update")
    invalidate
    pure entry

def deleteEntry (entryId : String) : TaxonomyM Unit := do
  let deleted ← call (.deleteEntry entryId) (deleteEntryDoc entryId)
  throwIf (!deleted) (entryNotFound entryId)
  invalidate

/-- `toggle_universal`, which leaves the matcher cache. -/
def toggleUniversal (entryId : String) : TaxonomyM SoftwareEntry := do
  let entry ← fetchEntry entryId (entryNotFound entryId)
  let r : SoftwareEntryUpdateRequest := { isUniversal := some (some !entry.isUniversal) }
  let _ ← call (.updateEntry entryId r) (updateEntry entryId r)
  fetchEntry entryId (entryNotFound entryId " after toggle")

def markerPatterns (py : Library.PyText) : List String → List Library.LibraryMarker → List String
  | _, [] => []
  | seen, m :: rest =>
    let p := py.strip m.pattern
    if p ≠ "" ∧ py.lower p ∉ seen then p :: markerPatterns py (py.lower p :: seen) rest
    else markerPatterns py seen rest

def libraryCategoryToTaxonomy (libCategory : String) : String :=
  if libCategory = "package_manager" then "utilities"
  else if libCategory = "desktop_application" then "productivity"
  else if libCategory = "attack_malware" then "security_threats"
  else if libCategory = "attack_tool" then "security_tools"
  else libCategory

def findByName (py : Library.PyText) (name : String) (s : TaxonomyStore) : Option EntryDoc :=
  s.entries.docs.find? fun doc => doc.name.any (py.matchesName name)

def pushPatterns (entryId : String) (patterns : List String) (s : TaxonomyStore) : TaxonomyStore :=
  s.modifyEntry entryId (fun doc => { doc with patterns := doc.patterns.map (· ++ patterns) })
    fun _ => rfl

structure PromoteRequest where
  entryId : String
  categoryOverride : Option String := none
  newEntryId : String
  newCategoryId : String
deriving DecidableEq

structure PromoteResponse where
  taxonomyEntryId : String
  name : String
  patternsAdded : Nat
  created : Bool
deriving DecidableEq

/-- `category_override or …`. -/
def PromoteRequest.category (r : PromoteRequest) (entry : Library.LibraryEntry) : String :=
  match r.categoryOverride with
  | none => libraryCategoryToTaxonomy entry.category
  | some key => if key = "" then libraryCategoryToTaxonomy entry.category else key

/-- `s or None`. -/
def nonempty (s : String) : Option String := if s = "" then none else some s

def promotedEntry (py : Library.PyText) (r : PromoteRequest) (entry : Library.LibraryEntry) :
    SoftwareEntry where
  id := r.newEntryId
  name := entry.name
  patterns := markerPatterns py [] entry.markers
  publisher := nonempty entry.vendor
  category := r.category entry
  categoryDisplay := py.title (Library.replaceChar '_' ' ' (r.category entry))
  description := nonempty entry.description

def promoteToTaxonomy (py : Library.PyText) (r : PromoteRequest)
    (found : Option Library.LibraryEntry) : TaxonomyM PromoteResponse := do
  let entry ← orThrow
    (.libraryEntryNotFound ("Library entry '" ++ r.entryId ++ "' not found")) found
  let patterns := markerPatterns py [] entry.markers
  throwIf patterns.isEmpty
    (.library ("Library entry '" ++ entry.name ++ "' has no marker patterns to promote"))
  ensureCategory r.newCategoryId (r.category entry)
    (py.title (Library.replaceChar '_' ' ' (r.category entry)))
  let existing? ← query (.findByName entry.name) (findByName py entry.name)
  match existing? with
  | some existing => do
    let stored ← orThrow .raised existing.patterns
    let name ← orThrow .raised existing.name
    let added := patterns.filter fun p => !(stored.map py.lower).contains (py.lower p)
    if added.isEmpty then pure ()
    else command (.pushPatterns existing.id added) (pushPatterns existing.id added)
    invalidate
    pure ⟨existing.id, name, added.length, false⟩
  | none => do
    let new := promotedEntry py r entry
    attempt (.insertEntry new) (insertEntry new)
    invalidate
    pure ⟨new.id, entry.name, patterns.length, true⟩

end Sentora.Taxonomy
