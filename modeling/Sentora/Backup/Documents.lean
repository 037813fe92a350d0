import Mathlib.Data.List.DropRight
import Mathlib.Data.String.Basic
import Sentora.Lib.Collection
import Sentora.Lib.FileTree
import Sentora.Lib.StableSort

/-!
# Backup records

The documents of `backup_history` and the two places where backups are stored, a directory
of the local disk and a bucket (`utils/backup.py`), and `BackupManager.enforce_retention`.
-/

namespace Sentora.Backup

open Lib

variable {β : Type}

inductive StorageType where
  | localDisk
  | s3
deriving DecidableEq

inductive BackupStatus where
  | inProgress
  | completed
  | failed
deriving DecidableEq

structure BackupRecord where
  id : String
  timestamp : String
  sizeBytes : Nat := 0
  checksumSha256 : String := ""
  storageType : StorageType := .localDisk
  storagePath : String := ""
  status : BackupStatus := .inProgress
  triggeredBy : String := "manual"
  error : Option String := none
deriving DecidableEq

abbrev Path := List String

/-- A tree of the files of a backup, an archive being a tree with one file at its root. -/
abbrev Tree (β : Type) := FileTree String β

structure Settings where
  backupLocalPath : String
  backupRetentionCount : Nat
  backupS3Bucket : String
  mongoDb : String
deriving DecidableEq

/-- The collection `backup_history` and the two storages. -/
structure Store (β : Type) where
  history : Collection BackupRecord.id
  disk : Tree β
  bucket : List (String × Tree β)

/-- What the operating system makes of paths: `Path(…).resolve()`, `str(Path(…) / …)`, and the
number of files after which the removal of a tree fails, if it does. -/
structure Host where
  resolve : String → Path
  join : String → String → String
  fault : Path → Option Nat

/-- The text without each occurrence of a part, from the left: `text.replace(part, "")`. -/
def removeAll (part : List Char) : Nat → List Char → List Char
  | _, [] => []
  | skip + 1, _ :: rest => removeAll part skip rest
  | 0, c :: rest =>
    if part.isPrefixOf (c :: rest) then removeAll part (part.length - 1) rest
    else c :: removeAll part 0 rest

def s3Key (settings : Settings) (storagePath : String) : String :=
  String.ofList (removeAll ("s3://" ++ settings.backupS3Bucket ++ "/").toList 0 storagePath.toList)

def Store.data (host : Host) (settings : Settings) (s : Store β) (r : BackupRecord) :
    Option (Tree β) :=
  match r.storageType with
  | .localDisk => some (s.disk.below (host.resolve r.storagePath))
  | .s3 =>
    (s.bucket.find? fun object => object.1 = s3Key settings r.storagePath).map (·.2)

def parts (path : String) : List String :=
  ((path.toList.splitOn '/').map String.ofList).filter fun part => part ≠ "" ∧ part ≠ "."

def isAbsolute (path : String) : Bool := path.toList.head? = some '/'

def plainHost (cwd : Path) : Host where
  resolve path :=
    (parts path).foldl (fun done part => if part = ".." then done.dropLast else done ++ [part])
      (if isAbsolute path then [] else cwd)
  join path name :=
    (if isAbsolute path then "/" else "") ++ "/".intercalate (parts path ++ [name])
  fault _ := none

/-- `shutil.rmtree`, with whether it raised an `OSError`: it does for a file, and it may have
removed some of the files before. -/
def rmtree (host : Host) (path : Path) (disk : Tree β) : Tree β × Bool :=
  if disk.isFile path then (disk, true)
  else
    match host.fault path with
    | none => (disk.without path, false)
    | some k =>
      let gone := (disk.filter fun e => path <+: e.1).take k
      (disk.filter fun e => ¬gone.any fun g => g.1 = e.1, true)

def removeFiles (host : Host) (path : Path) (disk : Tree β) : Tree β × Bool :=
  if disk.hasPath path then rmtree host path disk else (disk, false)

/-- The files of a backup lie in the directory for backups:
`backup_path.is_relative_to(expected_base)`. -/
def Inside (host : Host) (settings : Settings) (record : BackupRecord) : Prop :=
  let expectedBase := host.resolve settings.backupLocalPath
  let backupPath := host.resolve record.storagePath
  expectedBase <+: backupPath

instance Inside.decidable {host : Host} {settings : Settings} {record : BackupRecord} :
    Decidable (Inside host settings record) :=
  inferInstanceAs (Decidable (_ <+: _))

/-- What a call has done: the store, the number of deleted backups and the paths whose files
it failed to delete. -/
structure Enforcement (β : Type) where
  store : Store β
  deleted : Nat := 0
  failures : List Path := []

def enforceRecord (host : Host) (settings : Settings) (e : Enforcement β)
    (record : BackupRecord) : Enforcement β :=
  let backupPath := host.resolve record.storagePath
  -- Guard against path traversal
  if ¬Inside host settings record then e
  else
    let removal := removeFiles host backupPath e.store.disk
    if removal.2 then
      -- skip DB record deletion
      { e with
        store := { e.store with disk := removal.1 }
        failures := e.failures ++ [backupPath] }
    else
      { e with
        store :=
          { e.store with
            disk := removal.1
            history := e.store.history.deleteMany fun r => r.id = record.id }
        deleted := e.deleted + 1 }

/-- The records in the order of `.sort("timestamp", 1)`. -/
def oldestFirst (history : Collection BackupRecord.id) : List BackupRecord :=
  sortBy BackupRecord.timestamp history.docs

def enforceRetention (host : Host) (settings : Settings) (s : Store β) : Enforcement β :=
  let retention := settings.backupRetentionCount
  let total := s.history.docs.length
  if total ≤ retention then { store := s }
  else
    let excess := total - retention
    ((oldestFirst s.history).take excess).foldl (enforceRecord host settings) { store := s }

end Sentora.Backup
