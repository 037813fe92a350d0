import Sentora.Fingerprints.Documents

/-!
# Export and import of fingerprints

`export_all_fingerprints` and `import_fingerprints` of `domains/fingerprint/service.py`.
-/

namespace Sentora.Fingerprints

open Lib Library

structure FingerprintExportMarker where
  pattern : String
  displayName : String
  category : String
  weight : ℚ
  source : MarkerSource
  confidence : ℚ
deriving DecidableEq

structure FingerprintExportItem where
  groupId : String
  markers : List FingerprintExportMarker
deriving DecidableEq

def FingerprintMarker.export (m : FingerprintMarker) : FingerprintExportMarker :=
  ⟨m.pattern, m.displayName, m.category, m.weight, m.source, m.confidence⟩

def exportLimit : Nat := 10000

def exportAllFingerprints (db : Database) :
    Except ValidationError (List FingerprintExportItem) := do
  let fingerprints ← listAll db 0 exportLimit
  return fingerprints.map fun fp => ⟨fp.groupId, fp.markers.map FingerprintMarker.export⟩

def resolveGroupMeta (db : Database) (groupId : String) : String × String × String :=
  match db.groups.find? fun g => g.sourceId = groupId with
  | none => ("", "", "")
  | some group =>
    let accountName :=
      if group.siteId = "" then ""
      else
        match db.sites.find? fun s => s.sourceId = group.siteId with
        | none => ""
        | some site => site.accountName
    (group.name, group.siteName, accountName)

inductive Strategy where
  | merge
  | replace
deriving DecidableEq

def newMarker (now : Int) (m : FingerprintExportMarker) (id : Nat) : FingerprintMarker :=
  { id := some id, pattern := m.pattern, displayName := m.displayName, category := m.category,
    weight := m.weight, source := m.source, confidence := m.confidence, addedAt := now,
    addedBy := "import" }

def newMarkers (now : Int) (next : Nat) (ms : List FingerprintExportMarker) :
    List FingerprintMarker :=
  (ms.zipIdx next).map fun m => newMarker now m.1 m.2

def createImported (db : Database) (now : Int) (item : FingerprintExportItem) : Database :=
  let (groupName, siteName, accountName) := resolveGroupMeta db item.groupId
  let next := db.nextId + item.markers.length
  create { db with nextId := next + 1 }
    { id := .text (toString next), groupId := item.groupId, groupName, siteName, accountName,
      markers := newMarkers now db.nextId item.markers, createdAt := now, updatedAt := now,
      createdBy := "import" }

def replaceMarkers (db : Database) (now : Int) (item : FingerprintExportItem) : Database :=
  { db with nextId := db.nextId + item.markers.length }.updateMarkers item.groupId now fun _ =>
    newMarkers now db.nextId item.markers

/-- `existing_patterns.get(pattern)`, with `existing_patterns = {m.pattern: m for m in markers}`. -/
def existingPattern (markers : List FingerprintMarker) (pattern : String) :
    Option FingerprintMarker :=
  (markers.filter fun m => m.pattern = pattern).getLast?

def mergeMarker (groupId : String) (existing : List FingerprintMarker) (now : Int)
    (state : Database × Bool) (m : FingerprintExportMarker) : Database × Bool :=
  let (db, changed) := state
  match existingPattern existing m.pattern with
  | some found =>
    -- Update weight if the pattern already exists
    if found.weight ≠ m.weight then (updateMarker db groupId found.id m.weight now, true)
    else (db, changed)
  | none =>
    (addMarker { db with nextId := db.nextId + 1 } groupId (newMarker now m db.nextId) now, true)

def mergeMarkers (db : Database) (fp : Fingerprint) (now : Int) (item : FingerprintExportItem) :
    Database :=
  let (merged, changed) :=
    item.markers.foldl (mergeMarker item.groupId fp.markers now) (db, false)
  if changed then updateUpdatedAt merged item.groupId now else merged

structure FingerprintImportResponse where
  imported : Nat := 0
  skipped : Nat := 0
  errors : List String := []
deriving DecidableEq

def importItem (strategy : Strategy) (now : Int)
    (state : Database × FingerprintImportResponse) (item : FingerprintExportItem) :
    Database × FingerprintImportResponse :=
  let (db, response) := state
  if (db.groups.find? fun g => g.sourceId = item.groupId).isNone then
    (db, { response with skipped := response.skipped + 1 })
  else
    let imported := { response with imported := response.imported + 1 }
    match getByGroupId db item.groupId, strategy with
    | .error exc, _ =>
      let message := "Error importing group_id '" ++ item.groupId ++ "': " ++ exc.message
      (db, { response with errors := response.errors ++ [message] })
    | .ok none, _ => (createImported db now item, imported)
    | .ok (some _), .replace => (replaceMarkers db now item, imported)
    | .ok (some fp), .merge => (mergeMarkers db fp now item, imported)

def importFingerprints (strategy : Strategy) (now : Int) (db : Database)
    (items : List FingerprintExportItem) : Database × FingerprintImportResponse :=
  items.foldl (importItem strategy now) (db, {})

def importInto (strategy : Strategy) (now : Int) (db : Database) (item : FingerprintExportItem) :
    Database :=
  (importItem strategy now (db, {}) item).1

section Items

variable {strategy : Strategy} {now : Int} {db : Database} {item : FingerprintExportItem}
variable {items : List FingerprintExportItem} {response : FingerprintImportResponse}
variable {fp : Fingerprint} {g : String} {exc : ValidationError}

theorem find?_isNone_iff :
    (db.groups.find? fun group => group.sourceId = g).isNone = true ↔ ¬Listed db g := by
  rw [Option.isNone_iff_eq_none, List.find?_eq_none, Listed, not_exists]
  exact forall_congr' fun group => by simp

theorem importItem_fst :
    (importItem strategy now (db, response) item).1 = importInto strategy now db item := by
  rw [importInto, importItem, importItem]
  dsimp only
  split
  · rfl
  · split <;> rfl

theorem importFingerprints_fst :
    (importFingerprints strategy now db items).1 = items.foldl (importInto strategy now) db := by
  have hfold : ∀ (items : List FingerprintExportItem) (db : Database)
      (response : FingerprintImportResponse),
      (items.foldl (importItem strategy now) (db, response)).1 =
        items.foldl (importInto strategy now) db := by
    intro items
    induction items with
    | nil => exact fun _ _ => rfl
    | cons item rest ih =>
      intro db response
      rw [List.foldl_cons, List.foldl_cons, ← @importItem_fst _ _ _ _ response, ← ih]
  exact hfold items db {}

theorem importInto_of_not_listed (h : ¬Listed db item.groupId) :
    importInto strategy now db item = db := by
  rw [importInto, importItem, if_pos (find?_isNone_iff.mpr h)]

theorem getByGroupId_of_get (h : db.fingerprints.get g = some fp) :
    getByGroupId db g = (docToFingerprint fp).map some := by
  rw [getByGroupId, h]

theorem importInto_of_not_readable (h : ¬Readable db item.groupId) :
    importInto strategy now db item = db := by
  rw [Readable, not_forall] at h
  obtain ⟨fp, hfp⟩ := h
  rw [Classical.not_imp] at hfp
  rw [importInto, importItem]
  dsimp only
  split
  · rfl
  · rw [getByGroupId_of_get hfp.1]
    cases hdoc : docToFingerprint fp with
    | ok fp' => exact absurd (readable_of_ok hdoc).2 hfp.2
    | error exc => rfl

theorem importInto_of_none (hlisted : Listed db item.groupId)
    (h : db.fingerprints.get item.groupId = none) :
    importInto strategy now db item = createImported db now item := by
  rw [importInto, importItem, if_neg (mt find?_isNone_iff.mp (not_not.mpr hlisted)), getByGroupId,
    h]

theorem importInto_of_readable (hlisted : Listed db item.groupId)
    (h : db.fingerprints.get item.groupId = some fp) (hread : fp.Readable) :
    importInto strategy now db item =
      match strategy with
      | .replace => replaceMarkers db now item
      | .merge => mergeMarkers db fp now item := by
  rw [importInto, importItem, if_neg (mt find?_isNone_iff.mp (not_not.mpr hlisted)),
    getByGroupId_of_get h, docToFingerprint_of_readable hread]
  cases strategy <;> rfl

end Items

end Sentora.Fingerprints
