import Mathlib.Data.String.Basic
import Sentora.Lib.RangeSort
import Sentora.Library.Documents

/-!
# Fingerprints

The documents of `domains/fingerprint/entities.py`, and what `domains/fingerprint/repository.py`
does with the collection `fingerprints`.  An `ObjectId` is the number of those made before it.
-/

namespace Sentora.Fingerprints

open Lib Library

/-- A marker.  One that is stored without an `_id` is read with an id that no marker has. -/
structure FingerprintMarker where
  id : Option Nat
  pattern : String
  displayName : String
  category : String := "name_pattern"
  weight : ℚ := 1
  source : MarkerSource := .manual
  confidence : ℚ := 1
  addedAt : Int
  addedBy : String := "system"
deriving DecidableEq

/-- The `_id` of a document: a text, or the `ObjectId` that an upsert or an insertion without
one leaves. -/
inductive DocId where
  | text (id : String)
  | objectId (id : Nat)
deriving DecidableEq

structure Fingerprint where
  id : DocId
  groupId : String
  groupName : String := ""
  siteName : String := ""
  accountName : String := ""
  markers : List FingerprintMarker := []
  createdAt : Int
  updatedAt : Int
  createdBy : String := "system"
deriving DecidableEq

structure GroupDoc where
  sourceId : String
  name : String := ""
  siteId : String := ""
  siteName : String := ""
deriving DecidableEq

structure SiteDoc where
  sourceId : String
  accountName : String := ""
deriving DecidableEq

/-- The collections, and the number of `ObjectId`s made so far. -/
structure Database where
  fingerprints : Collection Fingerprint.groupId
  groups : List GroupDoc
  sites : List SiteDoc
  nextId : Nat

/-- The error of `model_validate` for a field. -/
structure ValidationError where
  field : String
  message : String
deriving DecidableEq

def docToFingerprint (doc : Fingerprint) : Except ValidationError Fingerprint :=
  match doc.id with
  | .text _ => .ok doc
  | .objectId _ => .error ⟨"_id", "Input should be a valid string"⟩

def getByGroupId (db : Database) (groupId : String) :
    Except ValidationError (Option Fingerprint) :=
  match db.fingerprints.get groupId with
  | none => .ok none
  | some doc => (docToFingerprint doc).map some

def listAll (db : Database) (skip limit : Nat) : Except ValidationError (List Fingerprint) :=
  let found := (sortBy Fingerprint.groupId db.fingerprints.docs).drop skip
  (if 0 < limit then found.take limit else found).mapM docToFingerprint

/-- `insert_one`, which the unique index on the group refuses for a second document. -/
def create (db : Database) (fp : Fingerprint) : Database :=
  match db.fingerprints.insertOne fp with
  | none => db
  | some fingerprints => { db with fingerprints }

def Database.updateMarkers (db : Database) (groupId : String) (now : Int)
    (f : List FingerprintMarker → List FingerprintMarker) : Database :=
  { db with
    fingerprints := db.fingerprints.updateOne (fun fp => fp.groupId == groupId)
      (fun fp => { fp with markers := f fp.markers, updatedAt := now }) fun _ => rfl }

def addMarker (db : Database) (groupId : String) (marker : FingerprintMarker) (now : Int) :
    Database :=
  db.updateMarkers groupId now fun markers => markers ++ [marker]

def updateMarker (db : Database) (groupId : String) (markerId : Option Nat) (weight : ℚ)
    (now : Int) : Database :=
  db.updateMarkers groupId now fun markers => markers.map fun m =>
    if m.id.isSome ∧ m.id = markerId then { m with weight } else m

def updateUpdatedAt (db : Database) (groupId : String) (now : Int) : Database :=
  db.updateMarkers groupId now id

def DocId.isText : DocId → Bool
  | .text _ => true
  | .objectId _ => false

/-- The `_id` of the document is a text, so that it can be read. -/
def Fingerprint.Readable (fp : Fingerprint) : Prop := fp.id.isText = true

instance Fingerprint.Readable.decidable {fp : Fingerprint} : Decidable fp.Readable :=
  inferInstanceAs (Decidable (_ = true))

/-- The document of the group can be read, if there is one. -/
def Readable (db : Database) (g : String) : Prop :=
  ∀ fp, db.fingerprints.get g = some fp → fp.Readable

instance Readable.decidable {db : Database} {g : String} : Decidable (Readable db g) :=
  decidable_of_iff (((db.fingerprints.get g).all fun fp => fp.id.isText) = true) (by
    rw [Readable]
    cases db.fingerprints.get g with
    | none => simp
    | some fp => simp [Fingerprint.Readable])

def Listed (db : Database) (g : String) : Prop := ∃ group ∈ db.groups, group.sourceId = g

def markersOf (db : Database) (g : String) : Option (List FingerprintMarker) :=
  (db.fingerprints.get g).map Fingerprint.markers

section Views

variable {db : Database} {fp : Fingerprint} {g k : String} {now : Int}
variable {f : List FingerprintMarker → List FingerprintMarker}

theorem get_updateMarkers : (db.updateMarkers g now f).fingerprints.get k =
    (db.fingerprints.get k).map fun fp =>
      if fp.groupId == g then { fp with markers := f fp.markers, updatedAt := now } else fp := by
  rw [Database.updateMarkers]
  dsimp only
  rw [Collection.get_updateOne]
  intro fp hfp fp' hfp' heq heq'
  exact Collection.eq_of_key hfp hfp' ((beq_iff_eq.mp heq).trans (beq_iff_eq.mp heq').symm)

theorem docToFingerprint_of_readable (h : fp.Readable) : docToFingerprint fp = .ok fp := by
  rw [docToFingerprint]
  cases hid : fp.id with
  | text id => rfl
  | objectId id =>
    rw [Fingerprint.Readable, hid] at h
    cases h

theorem readable_of_ok {fp' : Fingerprint} (h : docToFingerprint fp = .ok fp') :
    fp' = fp ∧ fp.Readable := by
  rw [docToFingerprint] at h
  cases hid : fp.id with
  | text id =>
    rw [hid] at h
    exact ⟨(Except.ok.inj h).symm, congrArg DocId.isText hid⟩
  | objectId id =>
    rw [hid] at h
    cases h

theorem groupId_of_get (h : db.fingerprints.get k = some fp) : fp.groupId = k :=
  (Collection.get_eq_some_iff.mp h).2

theorem markersOf_updateMarkers :
    markersOf (db.updateMarkers g now f) k =
      if k = g then (markersOf db k).map f else markersOf db k := by
  rw [markersOf, markersOf, get_updateMarkers]
  cases hget : db.fingerprints.get k with
  | none => simp
  | some fp =>
    have hkey := groupId_of_get hget
    by_cases hk : k = g
    · simp [hkey, hk]
    · simp [hkey, hk]

theorem readable_updateMarkers : Readable (db.updateMarkers g now f) k ↔ Readable db k := by
  rw [Readable, Readable, get_updateMarkers]
  cases hget : db.fingerprints.get k with
  | none => simp
  | some fp =>
    simp only [Option.map_some, Option.some_inj, forall_eq']
    split
    · rfl
    · rfl

theorem get_create (h : db.fingerprints.get fp.groupId = none) :
    (create db fp).fingerprints.get k =
      if k = fp.groupId then some fp else db.fingerprints.get k := by
  have hnone := Collection.get_eq_none_iff.mp h
  rw [create]
  cases hinsert : db.fingerprints.insertOne fp with
  | none =>
    rw [Collection.insertOne] at hinsert
    split at hinsert
    · next hmem =>
      obtain ⟨fp', hfp', heq⟩ := List.mem_map.mp hmem
      exact absurd heq (hnone fp' hfp')
    · cases hinsert
  | some fingerprints =>
    apply Option.ext
    intro d
    rw [Collection.get_eq_some_iff, Collection.mem_insertOne hinsert]
    by_cases hk : k = fp.groupId
    · rw [if_pos hk, Option.some_inj]
      constructor
      · rintro ⟨hold | heq, hkey⟩
        · exact absurd (hkey.trans hk) (hnone d hold)
        · exact heq.symm
      · intro heq
        rw [← heq]
        exact ⟨Or.inr rfl, hk.symm⟩
    · rw [if_neg hk, Collection.get_eq_some_iff]
      constructor
      · rintro ⟨hold | heq, hkey⟩
        · exact ⟨hold, hkey⟩
        · rw [heq] at hkey
          exact absurd hkey.symm hk
      · rintro ⟨hold, hkey⟩
        exact ⟨Or.inl hold, hkey⟩

theorem markersOf_create (h : db.fingerprints.get fp.groupId = none) :
    markersOf (create db fp) k =
      if k = fp.groupId then some fp.markers else markersOf db k := by
  rw [markersOf, get_create h]
  split
  · rfl
  · rfl

theorem readable_create (h : db.fingerprints.get fp.groupId = none) (hread : fp.Readable) :
    Readable (create db fp) k ↔ Readable db k := by
  rw [Readable, Readable, get_create h]
  split
  · next hk =>
    rw [hk, h]
    simp [hread]
  · rfl

theorem groups_create : (create db fp).groups = db.groups := by
  rw [create]
  split <;> rfl

theorem nextId_create : (create db fp).nextId = db.nextId := by
  rw [create]
  split <;> rfl

end Views

end Sentora.Fingerprints
