import Sentora.Backup.Documents
import Sentora.Lib.Machine

/-!
# Backups and restores

`create_backup` cut at its calls of the database and of `mongodump`, `restore_from_backup`,
`verify_backup` and `delete_backup` of `BackupManager`.  The tools are given.
-/

namespace Sentora.Backup

open Lib

variable {ρ β : Type}

/-- The collection `backup_history` and the others. -/
structure Database (ρ : Type) where
  history : Collection BackupRecord.id
  others : ρ

/-- `mongodump`, as a tree of files or as one archive, `mongorestore --drop`, which may fail,
and the SHA-256 digest and the size of a tree of files. -/
structure Tools (ρ β : Type) where
  mongodump : StorageType → Database ρ → Tree β
  mongorestore : Tree β → Option (Database ρ)
  sha256 : Tree β → String
  size : Tree β → Nat

/-- Where a call of `create_backup` is. -/
inductive Stage where
  | inserted
  | dumped
  | updated
deriving DecidableEq

/-- A call of `create_backup`: its record, and the database that `mongodump` has read for it
without an error. -/
structure Job (ρ : Type) where
  record : BackupRecord
  stage : Stage := .inserted
  snapshot : Option (Database ρ) := none

def Job.id (job : Job ρ) : String := job.record.id

structure World (ρ β : Type) where
  store : Store β
  others : ρ
  jobs : Collection (Job.id (ρ := ρ))

def World.database (w : World ρ β) : Database ρ := ⟨w.store.history, w.others⟩

inductive BackupFailure where
  | valueError (message : String)
  | runtimeError (message : String)
  | osError (path : Path)
  /-- The error of the S3 client. -/
  | clientError (key : String)
deriving DecidableEq

/-- `backup_dir.mkdir(parents=True, exist_ok=True)` and the files of a dump in it. -/
def dumpDir (files : Tree β) : Tree β := ([], none) :: files

def storedTree (tools : Tools ρ β) (type : StorageType) (d : Database ρ) : Tree β :=
  match type with
  | .s3 => tools.mongodump .s3 d
  | .localDisk => dumpDir (tools.mongodump .localDisk d)

def objectKey (id : String) : String := "backups/" ++ id ++ ".archive.gz"

def completedRecord (tools : Tools ρ β) (host : Host) (settings : Settings)
    (record : BackupRecord) (d : Database ρ) : BackupRecord :=
  let tree := storedTree tools record.storageType d
  { record with
    sizeBytes := tools.size tree
    checksumSha256 := tools.sha256 tree
    storagePath :=
      match record.storageType with
      | .s3 => "s3://" ++ settings.backupS3Bucket ++ "/" ++ objectKey record.id
      | .localDisk => host.join settings.backupLocalPath record.id
    status := .completed }

def failedRecord (host : Host) (settings : Settings) (record : BackupRecord) (error : String) :
    BackupRecord :=
  { record with
    storagePath :=
      match record.storageType with
      | .s3 => ""
      | .localDisk => host.join settings.backupLocalPath record.id
    status := .failed
    error := some error }

def Store.putObject (s : Store β) (key : String) (tree : Tree β) : Store β :=
  { s with bucket := (key, tree) :: s.bucket.filter fun object => object.1 ≠ key }

def World.insertRecord (w : World ρ β) (record : BackupRecord) : World ρ β :=
  match w.store.history.insertOne record, w.jobs.insertOne ⟨record, .inserted, none⟩ with
  | some history, some jobs => { w with store := { w.store with history }, jobs }
  | _, _ => w

def Store.writeFiles (host : Host) (settings : Settings) (s : Store β) (record : BackupRecord)
    (tree : Tree β) : Store β :=
  match record.storageType with
  | .s3 => s.putObject (objectKey record.id) tree
  | .localDisk =>
    { s with disk := s.disk.put (host.resolve (host.join settings.backupLocalPath record.id)) tree }

def World.dump (tools : Tools ρ β) (host : Host) (settings : Settings) (w : World ρ β)
    (job : Job ρ) (failure : Option (Tree β × String)) : World ρ β :=
  match failure with
  | none =>
    { w with
      store := w.store.writeFiles host settings job.record
        (storedTree tools job.record.storageType w.database)
      jobs := w.jobs.replaceOne
        ⟨completedRecord tools host settings job.record w.database, .dumped, some w.database⟩ }
  | some (left, error) =>
    { w with
      store :=
        match job.record.storageType with
        | .s3 => w.store
        | .localDisk => w.store.writeFiles host settings job.record (dumpDir left)
      jobs := w.jobs.replaceOne
        ⟨failedRecord host settings job.record error, .dumped, none⟩ }

/-- `update_one({"_id": backup_id}, {"$set": update})`. -/
def World.updateRecord (w : World ρ β) (job : Job ρ) : World ρ β :=
  { w with
    store :=
      { w.store with
        history := w.store.history.updateOne (fun r => r.id = job.id)
          (fun r => { job.record with id := r.id }) fun _ => rfl }
    jobs := w.jobs.replaceOne { job with stage := .updated } }

def notFound (id : String) : BackupFailure := .valueError ("Backup '" ++ id ++ "' not found")

def checkSum (tools : Tools ρ β) (record : BackupRecord) (tree : Tree β) :
    Except BackupFailure Unit :=
  if record.checksumSha256 ≠ "" ∧ tools.sha256 tree ≠ record.checksumSha256 then
    .error (.valueError
      ("Checksum mismatch: expected " ++ record.checksumSha256 ++ ", got " ++ tools.sha256 tree))
  else .ok ()

/-- The files that `mongorestore` is told to restore. -/
def findDump (host : Host) (settings : Settings) (s : Store β) (tools : Tools ρ β)
    (record : BackupRecord) : Except BackupFailure (Tree β) :=
  match record.storageType with
  | .s3 => do
    let key := s3Key settings record.storagePath
    match s.bucket.find? fun object => object.1 = key with
    | none => .error (.clientError key)
    | some object => do
      checkSum tools record object.2
      return object.2
  | .localDisk => do
    let backupDir := host.resolve record.storagePath
    if ¬Inside host settings record then
      .error (.valueError "Backup path outside expected directory")
    else if ¬s.disk.hasPath backupDir then
      .error (.valueError ("Backup directory does not exist: /" ++ "/".intercalate backupDir))
    else do
      checkSum tools record (s.disk.below backupDir)
      let dumpPath := backupDir ++ [settings.mongoDb]
      return s.disk.below (if s.disk.hasPath dumpPath then dumpPath else backupDir)

def restoreFromBackup (tools : Tools ρ β) (host : Host) (settings : Settings) (w : World ρ β)
    (id : String) : Except BackupFailure (World ρ β) :=
  match w.store.history.get id with
  | none => .error (notFound id)
  | some record => do
    let files ← findDump host settings w.store tools record
    match tools.mongorestore files with
    | none => .error (.runtimeError "mongorestore failed")
    | some d => return { w with store := { w.store with history := d.history }, others := d.others }

def verifyBackup (tools : Tools ρ β) (host : Host) (s : Store β) (id : String) :
    Except BackupFailure Bool :=
  match s.history.get id with
  | none => .error (notFound id)
  | some record =>
    if record.checksumSha256 = "" then
      .error (.valueError ("Backup '" ++ id ++ "' has no stored checksum"))
    else
      let backupPath := host.resolve record.storagePath
      if ¬s.disk.hasPath backupPath then .ok false
      else .ok (tools.sha256 (s.disk.below backupPath) = record.checksumSha256)

def deleteBackup (host : Host) (settings : Settings) (s : Store β) (id : String) :
    Store β × Except BackupFailure Bool :=
  match s.history.get id with
  | none => (s, .ok false)
  | some record =>
    let deleteOne (s : Store β) : Store β :=
      { s with history := s.history.deleteMany fun r => r.id = id }
    match record.storageType with
    | .s3 =>
      let key := s3Key settings record.storagePath
      (deleteOne { s with bucket := s.bucket.filter fun object => object.1 ≠ key }, .ok true)
    | .localDisk =>
      let backupPath := host.resolve record.storagePath
      if ¬Inside host settings record then
        (s, .error (.valueError "Backup path outside expected directory"))
      else
        let removal := removeFiles host backupPath s.disk
        if removal.2 then ({ s with disk := removal.1 }, .error (.osError backupPath))
        else (deleteOne { s with disk := removal.1 }, .ok true)

/-- The acts on a database and its backups; others write the other collections and the places
where backups are stored. -/
inductive Act (ρ β : Type) where
  | insertRecord (id timestamp : String) (storageType : StorageType) (triggeredBy : String)
  | dump (id : String) (failure : Option (Tree β × String))
  | updateRecord (id : String)
  | restore (id : String)
  | delete (id : String)
  | enforceRetention
  | writeOthers (others : ρ)
  | writeFiles (disk : Tree β) (bucket : List (String × Tree β))

def World.next (tools : Tools ρ β) (host : Host) (settings : Settings) (w : World ρ β) :
    Act ρ β → World ρ β
  | .insertRecord id timestamp storageType triggeredBy =>
    w.insertRecord { id, timestamp, storageType, triggeredBy }
  | .dump id failure =>
    match w.jobs.get id with
    | none => w
    | some job => w.dump tools host settings job failure
  | .updateRecord id =>
    match w.jobs.get id with
    | none => w
    | some job => w.updateRecord job
  | .restore id =>
    match restoreFromBackup tools host settings w id with
    | .error _ => w
    | .ok w' => w'
  | .delete id => { w with store := (deleteBackup host settings w.store id).1 }
  | .enforceRetention => { w with store := (enforceRetention host settings w.store).store }
  | .writeOthers others => { w with others }
  | .writeFiles disk bucket => { w with store := { w.store with disk, bucket } }

/-- The acts of a call of `create_backup` are in their order, and no two calls have one
identifier. -/
def World.Enabled (w : World ρ β) : Act ρ β → Prop
  | .insertRecord id .. => w.jobs.get id = none
  | .dump id _ => ∃ job, w.jobs.get id = some job ∧ job.stage = .inserted
  | .updateRecord id => ∃ job, w.jobs.get id = some job ∧ job.stage = .dumped
  | _ => True

def machine (tools : Tools ρ β) (host : Host) (settings : Settings) :
    Machine (World ρ β) (Act ρ β) :=
  ⟨World.Enabled, World.next tools host settings⟩

end Sentora.Backup
