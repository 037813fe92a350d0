import Sentora.Backup.Manager

namespace Sentora.Backup

open Lib

variable {ρ β : Type} {tools : Tools ρ β} {host : Host} {settings : Settings}
variable {w w' : World ρ β} {r : BackupRecord} {h : Collection BackupRecord.id}
variable {job : Job ρ} {d : Database ρ}

/-- The part of a dumped directory that `mongorestore` is told to restore. -/
def dumpRoot (settings : Settings) (t : Tree β) : Tree β :=
  t.below (if t.hasPath [settings.mongoDb] then [settings.mongoDb] else [])

/-- `mongorestore --drop` restores what `mongodump` has read, and no digest is empty. -/
structure Faithful (tools : Tools ρ β) (settings : Settings) : Prop where
  files : ∀ d, tools.mongorestore (dumpRoot settings (storedTree tools .localDisk d)) = some d
  archive : ∀ d, tools.mongorestore (storedTree tools .s3 d) = some d
  digest : ∀ t, tools.sha256 t ≠ ""

def IntactFrom (tools : Tools ρ β) (host : Host) (settings : Settings) (w : World ρ β)
    (r : BackupRecord) (d : Database ρ) : Prop :=
  (∃ job ∈ w.jobs, job.id = r.id ∧ job.snapshot = some d) ∧
    w.store.data host settings r = some (storedTree tools r.storageType d)

def Intact (tools : Tools ρ β) (host : Host) (settings : Settings) (w : World ρ β)
    (r : BackupRecord) : Prop :=
  ∃ d, IntactFrom tools host settings w r d

/-- The record of the backup is stored, completed, with its path and its digest. -/
def Usable (w : World ρ β) (r : BackupRecord) : Prop :=
  ∃ r' ∈ w.store.history, r'.id = r.id ∧ r'.status = .completed ∧
    r'.storagePath = r.storagePath ∧ r'.checksumSha256 = r.checksumSha256

def OfIntact (tools : Tools ρ β) (host : Host) (settings : Settings) (w : World ρ β) :
    Act ρ β → Prop
  | .restore id => ∀ w', restoreFromBackup tools host settings w id = .ok w' →
    ∃ r ∈ w.store.history, r.id = id ∧ Intact tools host settings w r
  | _ => True

/-- Completed records are those that calls of `create_backup` have written at their ends. -/
def Sound (w : World ρ β) (h : Collection BackupRecord.id) : Prop :=
  ∀ r ∈ h, r.status = .completed → ∃ job ∈ w.jobs, job.stage = .updated ∧ job.record = r

/-- A database that `mongodump` has read for a backup does not hold it as completed. -/
structure Snapshot (tools : Tools ρ β) (w : World ρ β) (job : Job ρ) (d : Database ρ) : Prop where
  sound : Sound w d.history
  own : ∀ r ∈ d.history, r.id = job.id → r.status ≠ .completed
  digest : job.record.checksumSha256 = tools.sha256 (storedTree tools job.record.storageType d)

structure Recorded (tools : Tools ρ β) (w : World ρ β) : Prop where
  current : Sound w w.store.history
  snapshots : ∀ job ∈ w.jobs, ∀ d, job.snapshot = some d → Snapshot tools w job d

theorem Sound.mono (hs : Sound w h)
    (hjobs : ∀ job ∈ w.jobs, job.stage = .updated → job ∈ w'.jobs) : Sound w' h := by
  intro r hr hdone
  obtain ⟨job, hjob, hstage, hrecord⟩ := hs r hr hdone
  exact ⟨job, hjobs job hjob hstage, hstage, hrecord⟩

theorem Sound.sub {h' : Collection BackupRecord.id} (hs : Sound w h) (hsub : ∀ r ∈ h', r ∈ h) :
    Sound w h' :=
  fun r hr => hs r (hsub r hr)

theorem Snapshot.mono (hs : Snapshot tools w job d)
    (hjobs : ∀ job ∈ w.jobs, job.stage = .updated → job ∈ w'.jobs) : Snapshot tools w' job d :=
  ⟨hs.sound.mono hjobs, hs.own, hs.digest⟩

/-- An act that leaves the calls of `create_backup` where they are and reads no new records
into the database. -/
theorem Recorded.of_jobs (hw : Recorded tools w) (hjobs : w'.jobs = w.jobs)
    (hcurrent : Sound w w'.store.history) : Recorded tools w' := by
  have hkeep : ∀ job ∈ w.jobs, job.stage = .updated → job ∈ w'.jobs := by
    rw [hjobs]
    exact fun job hjob _ => hjob
  refine ⟨hcurrent.mono hkeep, ?_⟩
  rw [hjobs]
  exact fun job hjob d hd => (hw.snapshots job hjob d hd).mono hkeep

theorem Recorded.insertRecord (hw : Recorded tools w) (hr : r.status = .inProgress) :
    Recorded tools (w.insertRecord r) := by
  rw [World.insertRecord]
  split
  · next history jobs hhistory hjobs =>
    have hkeep : ∀ job ∈ w.jobs, job.stage = .updated → job ∈ jobs := fun job hjob _ =>
      (Collection.mem_insertOne hjobs).mpr (Or.inl hjob)
    constructor
    · intro q hq hdone
      rcases (Collection.mem_insertOne hhistory).mp hq with hold | rfl
      · obtain ⟨job, hjob, hstage, hrecord⟩ := hw.current q hold hdone
        exact ⟨job, hkeep job hjob hstage, hstage, hrecord⟩
      · rw [hr] at hdone
        cases hdone
    · intro job hjob d hd
      rcases (Collection.mem_insertOne hjobs).mp hjob with hold | rfl
      · exact (hw.snapshots job hold d hd).mono hkeep
      · cases hd
  · exact hw

theorem Recorded.not_completed (hw : Recorded tools w) (hjob : job ∈ w.jobs)
    (hstage : job.stage ≠ .updated) : ∀ r ∈ w.store.history, r.id = job.id →
      r.status ≠ .completed := by
  intro r hr hid hdone
  obtain ⟨other, hother, hupdated, hrecord⟩ := hw.current r hr hdone
  have heq : other = job :=
    Collection.eq_of_key hother hjob ((congrArg BackupRecord.id hrecord).trans hid)
  rw [heq] at hupdated
  exact hstage hupdated

theorem keep_replaceOne {job' : Job ρ} (hjob : job ∈ w.jobs) (hid : job'.id = job.id)
    (hstage : job.stage ≠ .updated) :
    ∀ other ∈ w.jobs, other.stage = .updated → other ∈ w.jobs.replaceOne job' := by
  intro other hother hupdated
  refine Collection.mem_replaceOne.mpr (Or.inr ⟨hother, fun heq => ?_⟩)
  rw [Collection.eq_of_key hother hjob (heq.trans hid)] at hupdated
  exact hstage hupdated

theorem history_writeFiles {s : Store β} {files : Tree β} :
    (s.writeFiles host settings r files).history = s.history := by
  rw [Store.writeFiles]
  split <;> rfl

theorem history_dump {failure : Option (Tree β × String)} :
    (w.dump tools host settings job failure).store.history = w.store.history := by
  cases failure with
  | none => exact history_writeFiles
  | some failed =>
    rw [World.dump]
    dsimp only
    split
    · rfl
    · exact history_writeFiles

theorem Recorded.dump {failure : Option (Tree β × String)} (hw : Recorded tools w)
    (hjob : job ∈ w.jobs) (hstage : job.stage = .inserted) :
    Recorded tools (w.dump tools host settings job failure) := by
  have hnot : job.stage ≠ .updated := by rw [hstage]; decide
  have hkeep : ∀ other ∈ w.jobs, other.stage = .updated →
      other ∈ (w.dump tools host settings job failure).jobs := by
    cases failure with
    | none => exact keep_replaceOne hjob rfl hnot
    | some failed => exact keep_replaceOne hjob rfl hnot
  constructor
  · rw [history_dump]
    exact hw.current.mono hkeep
  · intro other hother d hd
    cases failure with
    | none =>
      rcases Collection.mem_replaceOne.mp hother with rfl | ⟨hold, _⟩
      · have hown : ∀ r ∈ w.store.history, r.id = job.id → r.status ≠ .completed :=
          hw.not_completed hjob hnot
        rw [← Option.some.inj hd]
        exact ⟨hw.current.mono hkeep, hown, rfl⟩
      · exact (hw.snapshots other hold d hd).mono hkeep
    | some failed =>
      rcases Collection.mem_replaceOne.mp hother with rfl | ⟨hold, _⟩
      · cases hd
      · exact (hw.snapshots other hold d hd).mono hkeep

theorem Recorded.updateRecord (hw : Recorded tools w) (hjob : job ∈ w.jobs)
    (hstage : job.stage = .dumped) : Recorded tools (w.updateRecord job) := by
  have hnot : job.stage ≠ .updated := by rw [hstage]; decide
  have hkeep : ∀ other ∈ w.jobs, other.stage = .updated → other ∈ (w.updateRecord job).jobs :=
    keep_replaceOne hjob rfl hnot
  constructor
  · intro r hr hdone
    have huniq : ∀ q ∈ w.store.history, ∀ q' ∈ w.store.history,
        decide (q.id = job.id) = true → decide (q'.id = job.id) = true → q = q' :=
      fun q hq q' hq' hid hid' => Collection.eq_of_key hq hq'
        ((of_decide_eq_true hid).trans (of_decide_eq_true hid').symm)
    rw [World.updateRecord] at hr
    dsimp only at hr
    rw [Collection.mem_updateOne_iff huniq] at hr
    obtain ⟨r₀, hr₀, heq⟩ := hr
    by_cases hid : r₀.id = job.id
    · rw [if_pos (decide_eq_true hid)] at heq
      refine ⟨{ job with stage := .updated }, Collection.mem_replaceOne.mpr (Or.inl rfl), rfl, ?_⟩
      rw [← heq, hid]
      rfl
    · rw [if_neg (by simpa using hid)] at heq
      rw [← heq] at hdone ⊢
      obtain ⟨other, hother, hupdated, hrecord⟩ := hw.current r₀ hr₀ hdone
      exact ⟨other, hkeep other hother hupdated, hupdated, hrecord⟩
  · intro other hother d hd
    rcases Collection.mem_replaceOne.mp hother with rfl | ⟨hold, _⟩
    · obtain ⟨hsound, hown, hdigest⟩ := hw.snapshots job hjob d hd
      exact ⟨hsound.mono hkeep, hown, hdigest⟩
    · exact (hw.snapshots other hold d hd).mono hkeep

theorem restore_eq_ok_iff {id : String} :
    restoreFromBackup tools host settings w id = .ok w' ↔
      ∃ record ∈ w.store.history, record.id = id ∧ ∃ files,
        findDump host settings w.store tools record = .ok files ∧
          ∃ d, tools.mongorestore files = some d ∧
            { w with store := { w.store with history := d.history }, others := d.others } = w' := by
  rw [restoreFromBackup]
  constructor
  · intro hok
    cases hget : w.store.history.get id with
    | none =>
      rw [hget] at hok
      cases hok
    | some record =>
      rw [hget] at hok
      obtain ⟨hmem, hid⟩ := Collection.get_eq_some_iff.mp hget
      refine ⟨record, hmem, hid, ?_⟩
      cases hfind : findDump host settings w.store tools record with
      | error failure =>
        simp only [hfind] at hok
        cases hok
      | ok files =>
        simp only [hfind] at hok
        refine ⟨files, rfl, ?_⟩
        cases hrestore : tools.mongorestore files with
        | none =>
          simp only [bind, Except.bind, hrestore] at hok
          cases hok
        | some d =>
          simp only [bind, Except.bind, hrestore] at hok
          exact ⟨d, rfl, Except.ok.inj hok⟩
  · intro ⟨record, hmem, hid, files, hfind, d, hrestore, heq⟩
    rw [Collection.get_eq_some_iff.mpr ⟨hmem, hid⟩]
    simp only [hfind, bind, Except.bind, hrestore]
    rw [← heq]
    rfl

theorem mongorestore_of_intact {files : Tree β} (hfaithful : Faithful tools settings)
    (hdata : w.store.data host settings r = some (storedTree tools r.storageType d))
    (hfind : findDump host settings w.store tools r = .ok files) :
    tools.mongorestore files = some d := by
  rw [Store.data] at hdata
  rw [findDump] at hfind
  cases htype : r.storageType with
  | s3 =>
    rw [htype] at hdata hfind
    dsimp only at hdata hfind
    obtain ⟨object, hobject, heq⟩ := Option.map_eq_some_iff.mp hdata
    rw [hobject] at hfind
    cases hsum : checkSum tools r object.2 with
    | error failure =>
      simp only [hsum] at hfind
      cases hfind
    | ok _ =>
      simp only [hsum] at hfind
      rw [← Except.ok.inj hfind, heq]
      exact hfaithful.archive d
  | localDisk =>
    rw [htype] at hdata hfind
    dsimp only at hdata hfind
    split at hfind
    · cases hfind
    · split at hfind
      · cases hfind
      · cases hsum : checkSum tools r (w.store.disk.below (host.resolve r.storagePath)) with
        | error failure =>
          simp only [hsum] at hfind
          cases hfind
        | ok _ =>
          simp only [hsum] at hfind
          have hroot := hfaithful.files d
          rw [dumpRoot, ← Option.some.inj hdata, ← FileTree.hasPath_append] at hroot
          rw [← Except.ok.inj hfind]
          split at hroot
          · next hpath =>
            rw [if_pos hpath, FileTree.below_append]
            exact hroot
          · next hpath =>
            rw [if_neg hpath]
            rwa [FileTree.below_nil] at hroot

theorem history_restore (hfaithful : Faithful tools settings) (hr : r ∈ w.store.history)
    (hdata : w.store.data host settings r = some (storedTree tools r.storageType d))
    (hok : restoreFromBackup tools host settings w r.id = .ok w') :
    w'.store.history = d.history ∧ w'.jobs = w.jobs := by
  obtain ⟨record, hrecord, hid, files, hfind, d', hrestore, rfl⟩ := restore_eq_ok_iff.mp hok
  rw [Collection.eq_of_key hrecord hr hid] at hfind
  rw [mongorestore_of_intact hfaithful hdata hfind] at hrestore
  exact ⟨congrArg Database.history (Option.some.inj hrestore).symm, rfl⟩

theorem Recorded.restore {id : String} (hfaithful : Faithful tools settings)
    (hw : Recorded tools w) (hgood : OfIntact tools host settings w (.restore id))
    (hok : restoreFromBackup tools host settings w id = .ok w') : Recorded tools w' := by
  obtain ⟨r, hr, rfl, d, ⟨job, hjob, _, hsnapshot⟩, hdata⟩ := hgood w' hok
  obtain ⟨hhistory, hjobs⟩ := history_restore hfaithful hr hdata hok
  apply hw.of_jobs hjobs
  rw [hhistory]
  exact (hw.snapshots job hjob d hsnapshot).sound

theorem mem_deleteBackup {s : Store β} {id : String}
    (h : r ∈ (deleteBackup host settings s id).1.history) : r ∈ s.history := by
  rw [deleteBackup] at h
  cases hget : s.history.get id with
  | none => rwa [hget] at h
  | some record =>
    rw [hget] at h
    dsimp only at h
    split at h
    · exact (Collection.mem_deleteMany.mp h).1
    · split at h
      · exact h
      · split at h
        · exact h
        · exact (Collection.mem_deleteMany.mp h).1

theorem mem_enforceRecord {e : Enforcement β} {q : BackupRecord}
    (h : r ∈ (enforceRecord host settings e q).store.history) : r ∈ e.store.history := by
  rw [enforceRecord] at h
  split at h
  · exact h
  · dsimp only at h
    split at h
    · exact h
    · exact (Collection.mem_deleteMany.mp h).1

theorem mem_enforceRetention {s : Store β}
    (h : r ∈ (enforceRetention host settings s).store.history) : r ∈ s.history := by
  have hloop : ∀ (records : List BackupRecord) (e : Enforcement β),
      r ∈ (records.foldl (enforceRecord host settings) e).store.history → r ∈ e.store.history := by
    intro records
    induction records with
    | nil => exact fun e he => he
    | cons q rest ih => exact fun e he => mem_enforceRecord (ih _ he)
  rw [enforceRetention] at h
  dsimp only at h
  split at h
  · exact h
  · exact hloop _ _ h

theorem recorded_keeps (hfaithful : Faithful tools settings) :
    (machine tools host settings).Keeps (OfIntact tools host settings) (Recorded tools) := by
  intro w act henabled hgood hw
  cases act with
  | insertRecord id timestamp storageType triggeredBy => exact hw.insertRecord rfl
  | dump id failure =>
    obtain ⟨job, hget, hstage⟩ := henabled
    simp only [machine, World.next, hget]
    exact hw.dump (Collection.get_eq_some_iff.mp hget).1 hstage
  | updateRecord id =>
    obtain ⟨job, hget, hstage⟩ := henabled
    simp only [machine, World.next, hget]
    exact hw.updateRecord (Collection.get_eq_some_iff.mp hget).1 hstage
  | restore id =>
    simp only [machine, World.next]
    cases hok : restoreFromBackup tools host settings w id with
    | error failure => exact hw
    | ok w' => exact hw.restore hfaithful hgood hok
  | delete id => exact hw.of_jobs rfl (hw.current.sub fun r hr => mem_deleteBackup hr)
  | enforceRetention => exact hw.of_jobs rfl (hw.current.sub fun r hr => mem_enforceRetention hr)
  | writeOthers others => exact hw.of_jobs rfl hw.current
  | writeFiles disk bucket => exact hw.of_jobs rfl hw.current

def World.start (others : ρ) (disk : Tree β) (bucket : List (String × Tree β)) : World ρ β :=
  ⟨⟨Collection.empty, disk, bucket⟩, others, Collection.empty⟩

theorem recorded_start {others : ρ} {disk : Tree β} {bucket : List (String × Tree β)} :
    Recorded tools (World.start others disk bucket) :=
  ⟨fun _ hr => absurd hr Collection.not_mem_empty, fun _ hjob => absurd hjob
    Collection.not_mem_empty⟩

theorem not_usable_of_restore (hfaithful : Faithful tools settings) (hw : Recorded tools w)
    (hr : r ∈ w.store.history) (hintact : Intact tools host settings w r)
    (hok : restoreFromBackup tools host settings w r.id = .ok w') : ¬Usable w' r := by
  obtain ⟨d, ⟨job, hjob, hid, hsnapshot⟩, hdata⟩ := hintact
  intro ⟨r', hr', hid', hdone, _⟩
  rw [(history_restore hfaithful hr hdata hok).1] at hr'
  exact (hw.snapshots job hjob d hsnapshot).own r' hr' (hid'.trans hid.symm) hdone

theorem Recorded.digest (hw : Recorded tools w) (hr : r ∈ w.store.history)
    (hdone : r.status = .completed) (hintact : IntactFrom tools host settings w r d) :
    r.checksumSha256 = tools.sha256 (storedTree tools r.storageType d) := by
  obtain ⟨⟨job, hjob, hid, hsnapshot⟩, _⟩ := hintact
  obtain ⟨other, hother, _, hrecord⟩ := hw.current r hr hdone
  have heq : job = other :=
    Collection.eq_of_key hjob hother (hid.trans (congrArg BackupRecord.id hrecord).symm)
  have hdigest := (hw.snapshots job hjob d hsnapshot).digest
  rwa [heq, hrecord] at hdigest

def FoundOnDisk (tools : Tools ρ β) (host : Host) (s : Store β) (r : BackupRecord) : Prop :=
  s.disk.hasPath (host.resolve r.storagePath) = true ∧
    tools.sha256 (s.disk.below (host.resolve r.storagePath)) = r.checksumSha256

theorem verifyBackup_eq_ok_true_iff (hr : r ∈ w.store.history) (hdigest : r.checksumSha256 ≠ "") :
    verifyBackup tools host w.store r.id = .ok true ↔ FoundOnDisk tools host w.store r := by
  rw [verifyBackup, Collection.get_eq_some_iff.mpr ⟨hr, rfl⟩, FoundOnDisk]
  dsimp only
  rw [if_neg hdigest]
  by_cases hpath : w.store.disk.hasPath (host.resolve r.storagePath) = true
  · rw [if_neg (not_not.mpr hpath), Except.ok.injEq, decide_eq_true_iff]
    exact (and_iff_right hpath).symm
  · rw [if_pos hpath, Except.ok.injEq]
    exact iff_of_false (fun h => nomatch h) fun h => hpath h.1

theorem foundOnDisk_of_localDisk (htype : r.storageType = .localDisk)
    (hdigest : r.checksumSha256 = tools.sha256 (storedTree tools r.storageType d))
    (hdata : w.store.data host settings r = some (storedTree tools r.storageType d)) :
    FoundOnDisk tools host w.store r := by
  rw [htype] at hdigest
  rw [Store.data, htype] at hdata
  have hbelow := Option.some.inj hdata
  constructor
  · rw [FileTree.hasPath_eq, hbelow]
    rfl
  · rw [hbelow]
    exact hdigest.symm

/-- In every run, a restore of a completed backup with intact data leaves a backup that is not
recorded as completed with its path and digest, and a verification of it succeeds if and only
if the backup is stored on the disk or files with its digest are found there at its path. -/
theorem restore_loses_record_and_verify_iff (tools : Tools ρ β) (host : Host) (settings : Settings)
    (hfaithful : Faithful tools settings) (others : ρ) (disk : Tree β)
    (bucket : List (String × Tree β)) (acts : List (Act ρ β))
    (hrun : (machine tools host settings).Runs (OfIntact tools host settings)
      (World.start others disk bucket) acts) (r : BackupRecord)
    (hr : r ∈ ((machine tools host settings).after
      (World.start others disk bucket) acts).store.history)
    (hdone : r.status = .completed)
    (hintact : Intact tools host settings
      ((machine tools host settings).after (World.start others disk bucket) acts) r) :
    let w := (machine tools host settings).after (World.start others disk bucket) acts
    (∀ w', restoreFromBackup tools host settings w r.id = .ok w' → ¬Usable w' r) ∧
      (verifyBackup tools host w.store r.id = .ok true ↔
        r.storageType = .localDisk ∨ FoundOnDisk tools host w.store r) := by
  have hw := (recorded_keeps hfaithful).after hrun recorded_start
  refine ⟨fun w' hok => not_usable_of_restore hfaithful hw hr hintact hok, ?_⟩
  obtain ⟨d, hfrom⟩ := hintact
  have hdigest := hw.digest hr hdone hfrom
  have hne : r.checksumSha256 ≠ "" := by
    rw [hdigest]
    exact hfaithful.digest _
  rw [verifyBackup_eq_ok_true_iff hr hne]
  constructor
  · exact Or.inr
  · rintro (htype | hfound)
    · exact foundOnDisk_of_localDisk htype hdigest hfrom.2
    · exact hfound

/-- Tools that write a database as one file, with a digest of the number of files. -/
def plainTools : Tools Nat (List BackupRecord × Nat) where
  mongodump
    | .s3, d => [([], some (d.history.docs, d.others))]
    | .localDisk, d => [(["sentora"], some (d.history.docs, d.others))]
  mongorestore
    | [([], some (docs, others))] =>
      if h : (docs.map BackupRecord.id).Nodup then some ⟨⟨docs, h⟩, others⟩ else none
    | _ => none
  sha256 t := "e3b0c442" ++ toString t.length
  size t := t.length

def plainSettings : Settings := ⟨"./backups", 7, "sentora-backups", "sentora"⟩

theorem faithful_plain : Faithful plainTools plainSettings where
  files d := by
    show plainTools.mongorestore [([], some (d.history.docs, d.others))] = some d
    exact dif_pos d.history.distinct
  archive d := dif_pos d.history.distinct
  digest t := by
    show "e3b0c442" ++ toString t.length ≠ ""
    simp

/-- One call of `create_backup`. -/
def oneBackup (storageType : StorageType) : List (Act Nat (List BackupRecord × Nat)) :=
  [.insertRecord "backup_1" "2026-01-01T02:00:00+00:00" storageType "manual",
    .dump "backup_1" none, .updateRecord "backup_1"]

def afterBackup (storageType : StorageType) : World Nat (List BackupRecord × Nat) :=
  (machine plainTools (plainHost ["app"]) plainSettings).after (World.start 3 [] [])
    (oneBackup storageType)

theorem runs_oneBackup_s3 : (machine plainTools (plainHost ["app"]) plainSettings).Runs
    (OfIntact plainTools (plainHost ["app"]) plainSettings) (World.start 3 [] [])
    (oneBackup .s3) :=
  ⟨⟨rfl, trivial⟩, ⟨⟨_, rfl, rfl⟩, trivial⟩, ⟨⟨_, rfl, rfl⟩, trivial⟩, trivial⟩

def archived : BackupRecord :=
  { id := "backup_1", timestamp := "2026-01-01T02:00:00+00:00", sizeBytes := 1,
    checksumSha256 := "e3b0c4421", storageType := .s3,
    storagePath := "s3://sentora-backups/backups/backup_1.archive.gz", status := .completed }

theorem mem_archived : archived ∈ (afterBackup .s3).store.history.docs := by decide +kernel

theorem intact_archived :
    Intact plainTools (plainHost ["app"]) plainSettings (afterBackup .s3) archived :=
  ⟨(World.insertRecord (World.start 3 ([] : Tree (List BackupRecord × Nat)) [])
      { id := "backup_1", timestamp := "2026-01-01T02:00:00+00:00", storageType := .s3 }).database,
    ⟨_, List.mem_cons_self, rfl, rfl⟩, by decide +kernel⟩

theorem restore_loses_record_and_verify_iff_archived :
    (∀ w', restoreFromBackup plainTools (plainHost ["app"]) plainSettings (afterBackup .s3)
        "backup_1" = .ok w' → ¬Usable w' archived) ∧
      (verifyBackup plainTools (plainHost ["app"]) (afterBackup .s3).store "backup_1" = .ok true ↔
        StorageType.s3 = .localDisk ∨
          FoundOnDisk plainTools (plainHost ["app"]) (afterBackup .s3).store archived) :=
  restore_loses_record_and_verify_iff plainTools (plainHost ["app"]) plainSettings faithful_plain
    3 [] [] (oneBackup .s3) runs_oneBackup_s3 archived mem_archived rfl intact_archived

def afterRestore (storageType : StorageType) : Option (List BackupRecord) :=
  (restoreFromBackup plainTools (plainHost ["app"]) plainSettings (afterBackup storageType)
    "backup_1").toOption.map fun w => w.store.history.docs

example : (afterRestore .localDisk).map (List.map fun r => (r.status, r.checksumSha256)) =
    some [(.inProgress, "")] := by decide +kernel

/-- A backup in the bucket is not completed any more when it has been restored, and its
verification fails. -/
theorem restore_loses_archived :
    archived ∈ (afterBackup .s3).store.history ∧ archived.status = .completed ∧
      Intact plainTools (plainHost ["app"]) plainSettings (afterBackup .s3) archived ∧
      (∃ w', restoreFromBackup plainTools (plainHost ["app"]) plainSettings (afterBackup .s3)
        "backup_1" = .ok w' ∧ ¬Usable w' archived) ∧
      verifyBackup plainTools (plainHost ["app"]) (afterBackup .s3).store "backup_1" =
        .ok false := by
  refine ⟨mem_archived, rfl, intact_archived, ?_, by decide +kernel⟩
  have hafter : (afterRestore .s3).map (List.map BackupRecord.status) = some [.inProgress] := by
    decide +kernel
  rw [afterRestore] at hafter
  cases hok : restoreFromBackup plainTools (plainHost ["app"]) plainSettings (afterBackup .s3)
      "backup_1" with
  | error failure =>
    rw [hok] at hafter
    cases hafter
  | ok w' =>
    rw [hok] at hafter
    refine ⟨w', rfl, ?_⟩
    intro ⟨r, hr, _, hdone, _⟩
    have hstatus : r.status ∈ w'.store.history.docs.map BackupRecord.status :=
      List.mem_map_of_mem hr
    rw [Option.some.inj hafter, hdone] at hstatus
    exact absurd hstatus (by decide)

end Sentora.Backup
