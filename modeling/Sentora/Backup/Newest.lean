import Sentora.Backup.Documents

/-!
# The newest backups

What is left behind a call of `enforce_retention` in which no removal of files fails, and
when that is the newest completed backups.
-/

namespace Sentora.Backup

open Lib

variable {β : Type} {host : Host} {settings : Settings} {s : Store β} {e : Enforcement β}
variable {r q : BackupRecord} {records : List BackupRecord} {n : Nat}

def completed (records : List BackupRecord) : List BackupRecord :=
  records.filter fun r => r.status = .completed

/-- The newest completed backups are there as they were, no backup in progress has lost its
record, and no more completed backups are left than shall be. -/
structure KeepsNewest (host : Host) (settings : Settings) (n : Nat) (s s' : Store β) : Prop where
  kept : ∀ r ∈ (completed (oldestFirst s.history)).rtake n,
    r ∈ s'.history ∧ s'.data host settings r = s.data host settings r
  inProgress : ∀ r ∈ s.history, r.status = .inProgress → r ∈ s'.history
  bounded : (completed s'.history.docs).length ≤ n

/-- The records that the retention selects, the oldest ones. -/
def older (n : Nat) (s : Store β) : List BackupRecord := (oldestFirst s.history).rdrop n

def room (n : Nat) (s : Store β) : Nat :=
  n - (completed ((oldestFirst s.history).rtake n)).length

/-- Which of the selected records lie in the directory for backups: none in progress, none of
the newest completed ones that have to stay, all other completed ones, and none whose files
are files of a backup that stays. -/
structure Tidy (host : Host) (settings : Settings) (n : Nat) (s : Store β) : Prop where
  inProgress : ∀ r ∈ older n s, r.status = .inProgress → ¬Inside host settings r
  stay : ∀ r ∈ (completed (older n s)).rtake (room n s), ¬Inside host settings r
  leave : ∀ r ∈ (completed (older n s)).rdrop (room n s), Inside host settings r
  apart : ∀ r ∈ (completed (oldestFirst s.history)).rtake n, r.storageType = .localDisk →
    ∀ q ∈ older n s, Inside host settings q → ∀ e ∈ s.disk,
      host.resolve r.storagePath <+: e.1 → ¬host.resolve q.storagePath <+: e.1

def Store.retire (host : Host) (settings : Settings) (s : Store β)
    (records : List BackupRecord) : Store β :=
  let gone := records.filter fun q => Inside host settings q
  { s with
    history := s.history.deleteMany fun r => gone.any fun q => q.id = r.id
    disk := s.disk.filter fun e => ¬gone.any fun q => host.resolve q.storagePath <+: e.1 }

theorem retire_nil : s.retire host settings [] = s := by
  obtain ⟨history, disk, bucket⟩ := s
  simp only [Store.retire, List.filter_nil, List.any_nil]
  congr 1
  · exact Collection.deleteMany_eq_self fun _ _ => rfl
  · exact List.filter_eq_self.mpr fun _ _ => rfl

theorem retire_cons_of_not (h : ¬Inside host settings r) :
    s.retire host settings (r :: records) = s.retire host settings records := by
  rw [Store.retire, Store.retire, List.filter_cons_of_neg (by simpa using h)]

theorem retire_cons (h : Inside host settings r) :
    s.retire host settings (r :: records) =
      ({ s with
        history := s.history.deleteMany fun d => d.id = r.id
        disk := s.disk.without (host.resolve r.storagePath) } : Store β).retire host settings
          records := by
  rw [Store.retire, Store.retire, List.filter_cons_of_pos (by simpa using h)]
  congr 1
  · apply Collection.ext
    show List.filter _ _ = List.filter _ (List.filter _ _)
    rw [List.filter_filter]
    apply List.filter_congr
    intro d _
    simp [eq_comm, Bool.and_comm]
  · rw [FileTree.without, List.filter_filter]
    apply List.filter_congr
    intro d _
    simp [Bool.and_comm]

theorem removeFiles_of_ok {path : Path} {disk : Tree β}
    (h : (removeFiles host path disk).2 = false) :
    (removeFiles host path disk).1 = disk.without path := by
  rw [removeFiles] at h ⊢
  by_cases hpath : disk.hasPath path = true
  · rw [if_pos hpath, rmtree] at h ⊢
    by_cases hfile : disk.isFile path = true
    · rw [if_pos hfile] at h
      exact absurd h (by simp)
    · rw [if_neg hfile] at h ⊢
      cases hfault : host.fault path with
      | none => rfl
      | some k =>
        rw [hfault] at h
        exact absurd h (by simp)
  · rw [if_neg hpath]
    exact (FileTree.without_of_not_hasPath (by simpa using hpath)).symm

theorem enforceRecord_of_not (h : ¬Inside host settings r) :
    enforceRecord host settings e r = e := if_pos h

theorem failures_enforceRecord (h : (enforceRecord host settings e r).failures = []) :
    e.failures = [] := by
  by_cases hin : Inside host settings r
  · rw [enforceRecord, if_neg (not_not.mpr hin)] at h
    dsimp only at h
    split at h
    · exact absurd h (by simp)
    · exact h
  · rwa [enforceRecord_of_not hin] at h

theorem store_enforceRecord (h : (enforceRecord host settings e r).failures = []) :
    (enforceRecord host settings e r).store.retire host settings records =
      e.store.retire host settings (r :: records) := by
  by_cases hin : Inside host settings r
  · rw [retire_cons hin]
    rw [enforceRecord, if_neg (not_not.mpr hin)] at h ⊢
    dsimp only at h ⊢
    by_cases hfailed : (removeFiles host (host.resolve r.storagePath) e.store.disk).2 = true
    · rw [if_pos hfailed] at h
      exact absurd h (by simp)
    · rw [if_neg hfailed, removeFiles_of_ok (by simpa using hfailed)]
  · rw [retire_cons_of_not hin, enforceRecord_of_not hin]

theorem failures_foldl (h : (records.foldl (enforceRecord host settings) e).failures = []) :
    e.failures = [] := by
  induction records generalizing e with
  | nil => exact h
  | cons r rest ih => exact failures_enforceRecord (ih h)

theorem store_foldl (h : (records.foldl (enforceRecord host settings) e).failures = []) :
    (records.foldl (enforceRecord host settings) e).store =
      e.store.retire host settings records := by
  induction records generalizing e with
  | nil => exact retire_nil.symm
  | cons r rest ih =>
    rw [List.foldl_cons] at h ⊢
    rw [ih h, store_enforceRecord (failures_foldl h)]

theorem length_oldestFirst : (oldestFirst s.history).length = s.history.docs.length :=
  (perm_sortBy BackupRecord.timestamp s.history.docs).length_eq

/-- A call whose removals all succeed takes away the selected backups that lie in the
directory. -/
theorem store_enforceRetention (h : (enforceRetention host settings s).failures = []) :
    (enforceRetention host settings s).store =
      s.retire host settings (older settings.backupRetentionCount s) := by
  rw [older, List.rdrop, length_oldestFirst]
  rw [enforceRetention] at h ⊢
  by_cases hle : s.history.docs.length ≤ settings.backupRetentionCount
  · rw [if_pos hle, Nat.sub_eq_zero_of_le hle, List.take_zero, retire_nil]
  · rw [if_neg hle] at h ⊢
    exact store_foldl h

theorem mem_oldestFirst : r ∈ oldestFirst s.history ↔ r ∈ s.history :=
  mem_sortBy _

theorem older_append_rtake : older n s ++ (oldestFirst s.history).rtake n =
    oldestFirst s.history :=
  List.take_append_drop ..

theorem mem_of_mem_older (h : r ∈ older n s) : r ∈ s.history :=
  mem_oldestFirst.mp (List.mem_of_mem_take h)

/-- A record is left unless it is selected and its files lie in the directory. -/
theorem mem_retire_iff (hr : r ∈ s.history) :
    r ∈ (s.retire host settings (older n s)).history ↔
      (r ∈ older n s → ¬Inside host settings r) := by
  show r ∈ s.history.deleteMany _ ↔ _
  rw [Collection.mem_deleteMany, List.any_eq_false]
  constructor
  · intro ⟨_, hnone⟩ hsel hin
    exact hnone r (List.mem_filter.mpr ⟨hsel, decide_eq_true hin⟩) (decide_eq_true rfl)
  · intro hleft
    refine ⟨hr, fun q hq hid => ?_⟩
    obtain ⟨hsel, hin⟩ := List.mem_filter.mp hq
    have heq := Collection.eq_of_key (mem_of_mem_older hsel) hr (of_decide_eq_true hid)
    rw [heq] at hsel hin
    exact hleft hsel (of_decide_eq_true hin)

theorem data_retire_iff :
    (s.retire host settings (older n s)).data host settings r = s.data host settings r ↔
      (r.storageType = .localDisk → ∀ q ∈ older n s, Inside host settings q → ∀ e ∈ s.disk,
        host.resolve r.storagePath <+: e.1 → ¬host.resolve q.storagePath <+: e.1) := by
  rw [Store.data, Store.data]
  cases r.storageType with
  | s3 => exact iff_of_true rfl (fun h => nomatch h)
  | localDisk =>
    dsimp only
    rw [Option.some_inj]
    show FileTree.below (s.disk.filter _) _ = _ ↔ _
    rw [FileTree.below_filter_iff]
    simp only [decide_eq_true_iff, Bool.not_eq_true, List.any_eq_false, List.mem_filter, and_imp,
      forall_const]
    constructor
    · intro h q hsel hin e he hr hq
      exact h e he hr q hsel hin hq
    · intro h e he hr q hsel hin hq
      exact h q hsel hin e he hr hq

theorem not_mem_older (h : r ∈ (oldestFirst s.history).rtake n) : r ∉ older n s := by
  have hnodup : (oldestFirst s.history).Nodup :=
    (perm_sortBy BackupRecord.timestamp s.history.docs).nodup_iff.mpr
      (List.Nodup.of_map _ s.history.distinct)
  rw [← @older_append_rtake _ s n] at hnodup
  exact fun hold => List.disjoint_of_nodup_append hnodup hold h

theorem completed_append (a b : List BackupRecord) :
    completed (a ++ b) = completed a ++ completed b :=
  List.filter_append ..

theorem rtake_append {a b : List BackupRecord} (h : b.length ≤ n) :
    (a ++ b).rtake n = a.rtake (n - b.length) ++ b := by
  have hdrop : a.length + b.length - n = a.length - (n - b.length) := by omega
  rw [List.rtake, List.rtake, List.length_append, hdrop, List.drop_append_of_le_length (by omega)]

theorem length_completed_rtake : (completed ((oldestFirst s.history).rtake n)).length ≤ n := by
  have hfilter : (completed ((oldestFirst s.history).rtake n)).length ≤ _ :=
    List.length_filter_le ..
  have hrtake : ((oldestFirst s.history).rtake n).length ≤ n := by
    rw [List.rtake, List.length_drop]
    omega
  exact hfilter.trans hrtake

theorem newest_eq : (completed (oldestFirst s.history)).rtake n =
    (completed (older n s)).rtake (room n s) ++ completed ((oldestFirst s.history).rtake n) := by
  rw [room, ← rtake_append length_completed_rtake, ← completed_append, older_append_rtake]

theorem length_completed_retire :
    (completed (s.retire host settings (older n s)).history.docs).length =
      (completed (older n s)).countP (fun r => ¬Inside host settings r) +
        (completed ((oldestFirst s.history).rtake n)).length := by
  have hdocs : (s.retire host settings (older n s)).history.docs =
      s.history.docs.filter fun r => r ∈ (s.retire host settings (older n s)).history.docs := by
    show s.history.docs.filter _ = _
    apply List.filter_congr
    intro r hr
    have hkeep : r ∈ (s.retire host settings (older n s)).history.docs ↔ _ :=
      Collection.mem_deleteMany
    rw [Bool.eq_iff_iff, decide_eq_true_iff, hkeep, Bool.not_eq_true']
    exact (and_iff_right hr).symm
  have hperm := perm_sortBy BackupRecord.timestamp s.history.docs
  have hsplit : s.history.docs.Perm (older n s ++ (oldestFirst s.history).rtake n) := by
    rw [older_append_rtake]
    exact hperm.symm
  have holder : (older n s).filter
      (fun r => r ∈ (s.retire host settings (older n s)).history.docs) =
        (older n s).filter fun r => ¬Inside host settings r := by
    apply List.filter_congr
    intro r hr
    rw [decide_eq_decide]
    exact (mem_retire_iff (mem_of_mem_older hr)).trans (forall_prop_of_true hr)
  have hrecent : ((oldestFirst s.history).rtake n).filter
      (fun r => r ∈ (s.retire host settings (older n s)).history.docs) =
        (oldestFirst s.history).rtake n := by
    rw [List.filter_eq_self]
    intro r hr
    have hmem : r ∈ s.history := mem_oldestFirst.mp (List.mem_of_mem_drop hr)
    rw [decide_eq_true_iff]
    exact (mem_retire_iff hmem).mpr fun hold => absurd hold (not_mem_older hr)
  rw [hdocs, completed, ((hsplit.filter _).filter _).length_eq, List.filter_append, holder, hrecent,
    List.filter_append, List.length_append, List.filter_comm, ← List.countP_eq_length_filter]
  rfl

/-- How many of the selected completed backups are left, those that have to stay apart. -/
theorem countP_completed_older :
    (completed (older n s)).countP (fun r => ¬Inside host settings r) =
      ((completed (older n s)).rdrop (room n s)).countP (fun r => ¬Inside host settings r) +
        ((completed (older n s)).rtake (room n s)).countP fun r => ¬Inside host settings r := by
  rw [← List.countP_append]
  exact congrArg _ (List.take_append_drop ..).symm

theorem mem_older_of_mem_rtake (h : r ∈ (completed (older n s)).rtake (room n s)) :
    r ∈ older n s :=
  List.mem_of_mem_filter (List.mem_of_mem_drop h)

theorem tidy_of_keepsNewest
    (h : KeepsNewest host settings n s (s.retire host settings (older n s))) :
    Tidy host settings n s := by
  have hstay : ∀ r ∈ (completed (older n s)).rtake (room n s), ¬Inside host settings r := by
    intro r hr
    have hold := mem_older_of_mem_rtake hr
    have hleft := (h.kept r (by rw [newest_eq]; exact List.mem_append_left _ hr)).1
    exact (mem_retire_iff (mem_of_mem_older hold)).mp hleft hold
  refine ⟨fun r hr hprogress => ?_, hstay, fun r hr => ?_, fun r hr => ?_⟩
  · have hr' := mem_of_mem_older hr
    exact (mem_retire_iff hr').mp (h.inProgress r hr' hprogress) hr
  · -- those that stay leave no room for one more
    by_contra hout
    have hall : ((completed (older n s)).rtake (room n s)).countP
        (fun r => ¬Inside host settings r) = _ :=
      List.countP_eq_length.mpr fun q hq => decide_eq_true (hstay q hq)
    have hone : 0 < ((completed (older n s)).rdrop (room n s)).countP
        fun r => ¬Inside host settings r :=
      List.countP_pos_iff.mpr ⟨r, hr, decide_eq_true hout⟩
    have hsome : 0 < ((completed (older n s)).rdrop (room n s)).length :=
      List.length_pos_of_mem hr
    have hcount := @countP_completed_older β host settings s n
    have hle := h.bounded
    rw [length_completed_retire, hcount, hall, List.rtake, List.length_drop] at hle
    rw [List.rdrop, List.length_take] at hsome
    have hroom : room n s = n - (completed ((oldestFirst s.history).rtake n)).length := rfl
    omega
  · exact data_retire_iff.mp (h.kept r hr).2

theorem keepsNewest_of_tidy (h : Tidy host settings n s) :
    KeepsNewest host settings n s (s.retire host settings (older n s)) := by
  refine ⟨fun r hr => ?_, fun r hr hprogress => ?_, ?_⟩
  · have hr' : r ∈ s.history :=
      mem_oldestFirst.mp (List.mem_of_mem_filter (List.mem_of_mem_drop hr))
    refine ⟨(mem_retire_iff hr').mpr fun hold => ?_, data_retire_iff.mpr (h.apart r hr)⟩
    rw [newest_eq] at hr
    rcases List.mem_append.mp hr with hstay | hrecent
    · exact h.stay r hstay
    · exact absurd hold (not_mem_older (List.mem_of_mem_filter hrecent))
  · exact (mem_retire_iff hr).mpr fun hold => h.inProgress r hold hprogress
  · have hnone : ((completed (older n s)).rdrop (room n s)).countP
        (fun r => ¬Inside host settings r) = 0 := by
      rw [List.countP_eq_zero]
      intro r hr
      simpa using h.leave r hr
    have hstay := @List.countP_le_length _ (fun r => decide ¬Inside host settings r)
      ((completed (older n s)).rtake (room n s))
    have hbound := @length_completed_rtake β s n
    rw [length_completed_retire, countP_completed_older, hnone]
    rw [List.rtake, List.length_drop] at hstay
    have hroom : room n s = n - (completed ((oldestFirst s.history).rtake n)).length := rfl
    rw [List.rtake]
    omega

/-- A retention in which no removal of files fails keeps the newest completed backups and
only these if and only if exactly the other ones of the selected lie in the directory. -/
theorem keepsNewest_iff_tidy (host : Host) (settings : Settings) (s : Store β)
    (h : (enforceRetention host settings s).failures = []) :
    KeepsNewest host settings settings.backupRetentionCount s
        (enforceRetention host settings s).store ↔
      Tidy host settings settings.backupRetentionCount s := by
  rw [store_enforceRetention h]
  exact ⟨tidy_of_keepsNewest, keepsNewest_of_tidy⟩

def keepOne : Settings := ⟨"./backups", 1, "sentora-backups", "sentora"⟩

def lastGood : BackupRecord :=
  { id := "backup_1", timestamp := "2026-01-01T02:00:00+00:00", checksumSha256 := "e3b0",
    storagePath := "backups/backup_1", status := .completed }

def failedSince : BackupRecord :=
  { id := "backup_2", timestamp := "2026-01-02T02:00:00+00:00",
    storagePath := "backups/backup_2", status := .failed, error := some "mongodump failed" }

def failedNight : Store Nat where
  history := ⟨[lastGood, failedSince], by decide⟩
  disk := [(["app", "backups", "backup_1", "sentora", "agents.bson.gz"], some 7)]
  bucket := []

theorem keepsNewest_iff_tidy_failedNight :
    KeepsNewest (plainHost ["app"]) keepOne 1 failedNight
        (enforceRetention (plainHost ["app"]) keepOne failedNight).store ↔
      Tidy (plainHost ["app"]) keepOne 1 failedNight :=
  keepsNewest_iff_tidy (plainHost ["app"]) keepOne failedNight (by decide +kernel)

/-- The last good backup is deleted. -/
theorem deletes_last_good :
    (enforceRetention (plainHost ["app"]) keepOne failedNight).failures = [] ∧
      ¬KeepsNewest (plainHost ["app"]) keepOne 1 failedNight
        (enforceRetention (plainHost ["app"]) keepOne failedNight).store := by
  refine ⟨by decide +kernel, fun h => ?_⟩
  have hkept := (h.kept lastGood (by decide +kernel)).1
  have hnone : (enforceRetention (plainHost ["app"]) keepOne failedNight).store.history.docs =
      [failedSince] := by decide +kernel
  rw [Collection.mem_def, hnone] at hkept
  exact absurd hkept (by decide +kernel)

end Sentora.Backup
