import Sentora.Auth.BlockedAccounts
import Sentora.Lib.CutOff

/-!
# Guesses against the lockout

Any number of calls of `authenticate_user` with wrong passwords for one user, in every
interleaving of their steps: how many of them compare the password with the stored hash.

The lock is looked at in the first step of a call and set in the last one, behind the step that
counts the failure.  A call that begins in between does not see it.
-/

namespace Sentora.Auth.Logins

open Lib Process

structure Guess where
  client : Client
  password : String

abbrev GuessPool (k : Nat) := Pool (Fin k) State Op (fun _ => Except Failure (Option User))

/-- No call has made a step. -/
def guessPool {k : Nat} (app : App) (username : String) (guesses : Fin k → Guess) (s : State) :
    GuessPool k :=
  ⟨s, fun i => (authenticateUser app (guesses i).client username (guesses i).password).run⟩

section Bounds

variable {k : Nat}

def findsOpen (username : String) (guesses : Fin k → Guess) (c : GuessPool k) (i : Fin k) : Bool :=
  (c.procs i).next? == some .findUser &&
    (findDoc username c.state.users).any fun doc => !isLocked (guesses i).client.checkedAt doc

def compares (username : String) (guesses : Fin k → Guess) (c : GuessPool k) (i : Fin k) : Bool :=
  findsOpen username guesses c i &&
    (findDoc username c.state.users).any fun doc => doc.hashedPassword.getD "" ≠ ""

def comparisons (username : String) (guesses : Fin k → Guess) : GuessPool k → List (Fin k) → Nat
  | _, [] => 0
  | c, i :: rest =>
    (compares username guesses c i).toNat + comparisons username guesses (c.turn i) rest

def failures (username : String) (s : State) : Nat :=
  ((findDoc username s.users).bind UserDoc.failedLoginAttempts).getD 0

/-- At most `n` calls compare, and none that begins behind the `n`-th recorded failure. -/
structure Bounded (n : Nat) (username : String) (guesses : Fin k → Guess) (c : GuessPool k)
    (schedule : List (Fin k)) : Prop where
  atMost : comparisons username guesses c schedule ≤ n
  noneLater : ∀ before i after, schedule = before ++ i :: after →
    n ≤ failures username (c.exec before).state →
      compares username guesses (c.exec before) i = false

def begun (c : GuessPool k) : Nat := c.standing (· != some .findUser)

/-- A call that makes its first step is one of the first `n`, or the lock has been set, or no
hash is stored. -/
def InTime (n : Nat) (username : String) (c : GuessPool k) (i : Fin k) : Prop :=
  (c.procs i).next? = some .findUser → begun c < n ∨
    ∃ doc, findDoc username c.state.users = some doc ∧
      (doc.lockedUntil ≠ none ∨ doc.hashedPassword.getD "" = "")

end Bounds

def setLock (app : App) (lockedAt : Nat) (username : String) : State → State :=
  State.updateUsers username fun d =>
    { d with lockedUntil := some (lockedAt + minutes app.accountLockoutDurationMinutes) }

/-- What can be left of a call. -/
inductive Stage (app : App) (username : String) (g : Guess) :
    Process State Op (Except Failure (Option User)) → Prop where
  | begins : Stage app username g (authenticateUser app g.client username g.password).run
  | counts : Stage app username g
      (recordFailure app g.client.lockedAt username >>= fun _ => pure none : Login _).run
  | locks : Stage app username g
      (.step .lockAccount (setLock app g.client.lockedAt username) fun _ => .ret (.ok none))
  | ends (result : Except Failure (Option User)) : Stage app username g (.ret result)

section Steps

variable {k : Nat} {app : App} {username : String} {guesses : Fin k → Guess} {c : GuessPool k}
  {i : Fin k} {doc : UserDoc} {p : Process State Op (Except Failure (Option User))}

theorem turn_procs_self {l : Op} {u : State → State}
    {next : State → Process State Op (Except Failure (Option User))}
    (h : c.procs i = .step l u next) :
    (c.turn i).state = u c.state ∧ (c.turn i).procs i = next c.state := by
  rw [Pool.turn_of_step h]
  exact ⟨rfl, Function.update_self ..⟩

theorem dummy_ends (answer : Option Bool) :
    ∃ result, (do
      let _timing ← orThrow .raised answer
      pure none : Login (Option User)).run = .ret result := by
  cases answer with
  | none => exact ⟨_, rfl⟩
  | some b => exact ⟨_, rfl⟩

/-- What comes of a turn of a call. -/
inductive Turned (app : App) (username : String) (g : Guess) (doc : UserDoc) (c d : GuessPool k)
    (i : Fin k) : Prop where
  | ended (hnext : (c.procs i).next? = none) (heq : d = c)
  | found (hnext : (c.procs i).next? = some .findUser) (hstate : d.state = c.state)
      (hafter : (d.procs i).next? =
        if isLocked g.client.checkedAt doc then none else some .countFailure)
  | counted (hnext : (c.procs i).next? = some .countFailure)
      (hstate : d.state = (incrementFailures username c.state).1)
      (hafter : (d.procs i).next? = none ∨ (d.procs i).next? = some .lockAccount)
  | locked (hnext : (c.procs i).next? = some .lockAccount)
      (hstate : d.state = setLock app g.client.lockedAt username c.state)
      (hafter : (d.procs i).next? = none)

theorem turn_stage (hstage : Stage app username (guesses i) (c.procs i))
    (hdoc : findDoc username c.state.users = some doc)
    (hwrong : passwordMatches app (guesses i).password (doc.hashedPassword.getD "") = pure false) :
    Stage app username (guesses i) ((c.turn i).procs i) ∧
      Turned app username (guesses i) doc c (c.turn i) i := by
  generalize hp : c.procs i = p at hstage
  cases hstage with
  | begins =>
    obtain ⟨hstate, hprocs⟩ := turn_procs_self hp
    dsimp only [Process.bind, Function.comp] at hprocs
    rw [hdoc] at hprocs
    have hnext : (c.procs i).next? = some .findUser := by
      rw [hp]
      rfl
    cases hlocked : isLocked (guesses i).client.checkedAt doc with
    | true =>
      obtain ⟨result, hresult⟩ := dummy_ends
        (app.verifyPassword (guesses i).password app.dummyBcryptHash)
      have hends : (c.turn i).procs i = .ret result := by
        rw [hprocs]
        show (if isLocked (guesses i).client.checkedAt doc = true then _ else _ : Login _).run = _
        rw [if_pos hlocked]
        exact hresult
      refine ⟨hends ▸ .ends result, .found hnext hstate ?_⟩
      rw [hends, hlocked]
      rfl
    | false =>
      have hcounts : (c.turn i).procs i = (recordFailure app (guesses i).client.lockedAt username
          >>= fun _ => pure none : Login _).run := by
        rw [hprocs]
        show (if isLocked (guesses i).client.checkedAt doc = true then _ else _ : Login _).run = _
        rw [hlocked, if_neg Bool.false_ne_true, hwrong]
        rfl
      refine ⟨hcounts ▸ .counts, .found hnext hstate ?_⟩
      rw [hcounts, hlocked]
      rfl
  | counts =>
    obtain ⟨hstate, hprocs⟩ := turn_procs_self hp
    have hnext : (c.procs i).next? = some .countFailure := by
      rw [hp]
      rfl
    by_cases hreached :
        app.accountLockoutThreshold ≤ (incrementFailures username c.state).2
    · have hlocks : (c.turn i).procs i = .step .lockAccount
          (setLock app (guesses i).client.lockedAt username) fun _ => .ret (.ok none) := by
        rw [hprocs]
        show ((if app.accountLockoutThreshold ≤ (incrementFailures username c.state).2 then _
          else _ : Login Unit) >>= fun _ => pure none : Login (Option User)).run = _
        rw [if_pos hreached]
        rfl
      refine ⟨hlocks ▸ .locks, .counted hnext hstate (Or.inr ?_)⟩
      rw [hlocks]
      rfl
    · have hends : (c.turn i).procs i = .ret (.ok none) := by
        rw [hprocs]
        show ((if app.accountLockoutThreshold ≤ (incrementFailures username c.state).2 then _
          else _ : Login Unit) >>= fun _ => pure none : Login (Option User)).run = _
        rw [if_neg hreached]
        rfl
      refine ⟨hends ▸ .ends _, .counted hnext hstate (Or.inl ?_)⟩
      rw [hends]
      rfl
  | locks =>
    obtain ⟨hstate, hprocs⟩ := turn_procs_self hp
    have hnext : (c.procs i).next? = some .lockAccount := by
      rw [hp]
      rfl
    refine ⟨hprocs ▸ .ends _, .locked hnext hstate ?_⟩
    rw [hprocs]
    rfl
  | ends result =>
    have hsame : c.turn i = c := Pool.turn_of_ret hp
    rw [hsame, hp]
    refine ⟨.ends result, .ended ?_ rfl⟩
    rw [hp]
    rfl

end Steps

section Counting

variable {k : Nat} {app : App} {username : String} {guesses : Fin k → Guess} {c : GuessPool k}
  {i : Fin k} {doc : UserDoc} {found start : Nat}
variable {hashed : String} {schedule : List (Fin k)} {s : State} {n : Nat}

def waiting (c : GuessPool k) : Nat := c.standing (· == some .countFailure)

theorem findDoc_updateUsers (update : UserDoc → UserDoc)
    (hupdate : ∀ d, (update d).username = d.username)
    (hdoc : findDoc username s.users = some doc) :
    findDoc username (s.updateUsers username update).users = some (update doc) := by
  show findDoc username (updateDoc username update s.users) = _
  rw [findDoc_updateDoc_self hupdate, hdoc]
  rfl

theorem findDoc_incrementFailures (hdoc : findDoc username s.users = some doc) :
    findDoc username (incrementFailures username s).1.users =
      some { doc with failedLoginAttempts := some (doc.failedLoginAttempts.getD 0 + 1) } :=
  findDoc_updateUsers
    (fun d => { d with failedLoginAttempts := some (d.failedLoginAttempts.getD 0 + 1) })
    (fun _ => rfl) hdoc

theorem findDoc_setLock (lockedAt : Nat)
    (hdoc : findDoc username s.users = some doc) :
    findDoc username (setLock app lockedAt username s).users = some { doc with
      lockedUntil := some (lockedAt + minutes app.accountLockoutDurationMinutes) } :=
  findDoc_updateUsers (fun d => { d with
    lockedUntil := some (lockedAt + minutes app.accountLockoutDurationMinutes) })
    (fun _ => rfl) hdoc

/-- The document, where `found` calls have found the account open: each of them has recorded its
failure or is about to, and without a lock no other call has begun.  A lock that is set outlasts
the calls. -/
structure Tally (app : App) (hashed : String) (start found : Nat) (c : GuessPool k)
    (doc : UserDoc) : Prop where
  hash : doc.hashedPassword.getD "" = hashed
  count : doc.failedLoginAttempts.getD 0 + waiting c = found
  all : doc.lockedUntil = none → begun c = found
  lasts : ∀ t, doc.lockedUntil = some t → start + minutes app.accountLockoutDurationMinutes ≤ t

structure Tallied (app : App) (username : String) (guesses : Fin k → Guess) (hashed : String)
    (start found : Nat) (c : GuessPool k) : Prop where
  stages : ∀ i, Stage app username (guesses i) (c.procs i)
  doc : ∃ doc, findDoc username c.state.users = some doc ∧ Tally app hashed start found c doc

/-- The calls take place within the duration of a lock. -/
def WithinLock (app : App) (guesses : Fin k → Guess) (start : Nat) : Prop :=
  ∀ i, start ≤ (guesses i).client.lockedAt ∧
    (guesses i).client.checkedAt < start + minutes app.accountLockoutDurationMinutes

/-- No password is that of the hash. -/
def AllWrong (app : App) (guesses : Fin k → Guess) (hashed : String) : Prop :=
  ∀ i, passwordMatches app (guesses i).password hashed = pure false

theorem isLocked_eq_false_iff (htally : Tally app hashed start found c doc)
    (hwithin : WithinLock app guesses start) (i : Fin k) :
    isLocked (guesses i).client.checkedAt doc = false ↔ doc.lockedUntil = none := by
  unfold isLocked
  cases hlock : doc.lockedUntil with
  | none => exact iff_of_true rfl rfl
  | some t =>
    have hlasts := htally.lasts t hlock
    have hbefore := (hwithin i).2
    have hlt : (guesses i).client.checkedAt < t := by omega
    exact iff_of_false (by simp [hlt]) nofun

theorem findsOpen_eq (guesses : Fin k → Guess) (i : Fin k)
    (hdoc : findDoc username c.state.users = some doc) :
    findsOpen username guesses c i = ((c.procs i).next? == some .findUser &&
      !isLocked (guesses i).client.checkedAt doc) := by
  unfold findsOpen
  rw [hdoc]
  rfl

theorem tallied_turn (hwrong : AllWrong app guesses hashed)
    (hwithin : WithinLock app guesses start)
    (h : Tallied app username guesses hashed start found c) (i : Fin k) :
    Tallied app username guesses hashed start
      (found + (findsOpen username guesses c i).toNat) (c.turn i) := by
  obtain ⟨doc, hdoc, htally⟩ := h.doc
  have hwrong' : passwordMatches app (guesses i).password (doc.hashedPassword.getD "") =
      pure false := by
    rw [htally.hash]
    exact hwrong i
  obtain ⟨hstage, hturned⟩ := turn_stage (h.stages i) hdoc hwrong'
  refine ⟨fun j => ?_, ?_⟩
  · by_cases hji : j = i
    · rw [hji]
      exact hstage
    · rw [Pool.turn_procs_of_ne hji]
      exact h.stages j
  have hwaiting : waiting (c.turn i) + _ = waiting c + _ := Pool.standing_turn _ c i
  have hbegun : begun (c.turn i) + _ = begun c + _ := Pool.standing_turn _ c i
  have hfinds := findsOpen_eq guesses i hdoc
  have hcount := htally.count
  cases hturned with
  | ended hnext heq =>
    rw [hfinds, hnext, heq]
    exact ⟨doc, hdoc, htally⟩
  | found hnext hstate hafter =>
    rw [hnext, hafter] at hwaiting hbegun
    rw [hfinds, hnext, hstate]
    refine ⟨doc, hdoc, ?_⟩
    cases hlocked : isLocked (guesses i).client.checkedAt doc with
    | true =>
      rw [hlocked] at hwaiting hbegun
      replace hwaiting : waiting (c.turn i) + 0 = waiting c + 0 := hwaiting
      have hset : doc.lockedUntil ≠ none := fun hnone =>
        Bool.false_ne_true (((isLocked_eq_false_iff htally hwithin i).mpr hnone).symm.trans hlocked)
      refine ⟨htally.hash, ?_, fun hnone => absurd hnone hset, htally.lasts⟩
      show doc.failedLoginAttempts.getD 0 + waiting (c.turn i) = found + 0
      omega
    | false =>
      rw [hlocked] at hwaiting hbegun
      replace hwaiting : waiting (c.turn i) + 0 = waiting c + 1 := hwaiting
      replace hbegun : begun (c.turn i) + 0 = begun c + 1 := hbegun
      refine ⟨htally.hash, ?_, fun hnone => ?_, htally.lasts⟩
      · show doc.failedLoginAttempts.getD 0 + waiting (c.turn i) = found + 1
        omega
      · show begun (c.turn i) = found + 1
        have hall := htally.all hnone
        omega
  | counted hnext hstate hafter =>
    have hkept : waiting (c.turn i) + 1 = waiting c + 0 ∧
        begun (c.turn i) + 1 = begun c + 1 := by
      rw [hnext] at hwaiting hbegun
      rcases hafter with hafter | hafter
      · rw [hafter] at hwaiting hbegun
        exact ⟨hwaiting, hbegun⟩
      · rw [hafter] at hwaiting hbegun
        exact ⟨hwaiting, hbegun⟩
    rw [hfinds, hnext, hstate]
    refine ⟨_, findDoc_incrementFailures hdoc, htally.hash, ?_, fun hnone => ?_,
      htally.lasts⟩
    · show doc.failedLoginAttempts.getD 0 + 1 + waiting (c.turn i) = found + 0
      omega
    · show begun (c.turn i) = found + 0
      have hall := htally.all hnone
      omega
  | locked hnext hstate hafter =>
    rw [hnext, hafter] at hwaiting hbegun
    replace hwaiting : waiting (c.turn i) + 0 = waiting c + 0 := hwaiting
    rw [hfinds, hnext, hstate]
    refine ⟨_, findDoc_setLock _ hdoc, htally.hash, ?_, nofun, fun t ht => ?_⟩
    · show doc.failedLoginAttempts.getD 0 + waiting (c.turn i) = found + 0
      omega
    · rw [← Option.some.inj ht]
      exact Nat.add_le_add_right (hwithin i).1 _

theorem compares_eq (guesses : Fin k → Guess) (i : Fin k)
    (hdoc : findDoc username c.state.users = some doc)
    (hhash : doc.hashedPassword.getD "" = hashed) :
    compares username guesses c i = (findsOpen username guesses c i && decide (hashed ≠ "")) := by
  unfold compares
  rw [hdoc, ← hhash]
  rfl

theorem le_iff_of_tallied (hstored : hashed ≠ "")
    (hwrong : AllWrong app guesses hashed) (hwithin : WithinLock app guesses start)
    (hfound : found ≤ n)
    (h : Tallied app username guesses hashed start found c) :
    found + comparisons username guesses c schedule ≤ n ↔
      AllMeet Pool.turn (InTime n username) c schedule := by
  induction schedule generalizing c found with
  | nil => exact iff_of_true hfound trivial
  | cons i rest ih =>
    obtain ⟨doc, hdoc, htally⟩ := h.doc
    have hturn := tallied_turn hwrong hwithin h i
    have hcompares : compares username guesses c i = findsOpen username guesses c i := by
      rw [compares_eq guesses i hdoc htally.hash, decide_eq_true hstored, Bool.and_true]
    show found + ((compares username guesses c i).toNat + _) ≤ n ↔ InTime n username c i ∧ _
    rw [hcompares]
    cases hopen : findsOpen username guesses c i with
    | true =>
      rw [hopen] at hturn
      rw [findsOpen_eq guesses i hdoc, Bool.and_eq_true, beq_iff_eq, Bool.not_eq_true'] at hopen
      have hnone := (isLocked_eq_false_iff htally hwithin i).mp hopen.2
      have hbegun := htally.all hnone
      have hintime : InTime n username c i ↔ found < n := by
        constructor
        · intro hin
          rcases hin hopen.1 with hlt | ⟨doc', hdoc', hset⟩
          · omega
          · cases hdoc.symm.trans hdoc'
            exact absurd hset (not_or.mpr ⟨not_not.mpr hnone, htally.hash ▸ hstored⟩)
        · intro hlt _
          exact Or.inl (by omega)
      rw [hintime]
      by_cases hlt : found < n
      · rw [and_iff_right hlt, ← ih hlt hturn]
        show found + (1 + _) ≤ n ↔ found + 1 + _ ≤ n
        omega
      · refine iff_of_false (fun hle => ?_) fun hboth => hlt hboth.1
        have hone : found + (1 + comparisons username guesses (c.turn i) rest) ≤ n := hle
        omega
    | false =>
      rw [hopen] at hturn
      have hintime : InTime n username c i := by
        intro hfind
        rw [findsOpen_eq guesses i hdoc, hfind] at hopen
        refine Or.inr ⟨doc, hdoc, Or.inl fun hnone => ?_⟩
        rw [(isLocked_eq_false_iff htally hwithin i).mpr hnone] at hopen
        cases hopen
      rw [and_iff_right hintime, ← ih hfound hturn]
      show found + (0 + _) ≤ n ↔ found + 0 + _ ≤ n
      rw [Nat.zero_add, Nat.add_zero]

theorem all_of_tallied (hwrong : AllWrong app guesses "")
    (hwithin : WithinLock app guesses start)
    (h : Tallied app username guesses "" start found c) :
    comparisons username guesses c schedule = 0 ∧
      AllMeet Pool.turn (InTime n username) c schedule := by
  induction schedule generalizing c found with
  | nil => exact ⟨rfl, trivial⟩
  | cons i rest ih =>
    obtain ⟨doc, hdoc, htally⟩ := h.doc
    obtain ⟨hzero, hrest⟩ := ih (tallied_turn hwrong hwithin h i)
    refine ⟨?_, fun _ => Or.inr ⟨doc, hdoc, Or.inr htally.hash⟩, hrest⟩
    show (compares username guesses c i).toNat + _ = 0
    rw [hzero, compares_eq guesses i hdoc htally.hash]
    simp

theorem comparisons_append {before after : List (Fin k)} :
    comparisons username guesses c (before ++ after) =
      comparisons username guesses c before +
        comparisons username guesses (c.exec before) after := by
  induction before generalizing c with
  | nil => exact (Nat.zero_add _).symm
  | cons i before ih =>
    show _ + comparisons username guesses (c.turn i) (before ++ after) = _ + _ + _
    rw [ih, Nat.add_assoc]
    rfl

theorem tallied_exec (hwrong : AllWrong app guesses hashed)
    (hwithin : WithinLock app guesses start) (schedule : List (Fin k))
    (h : Tallied app username guesses hashed start found c) :
    ∃ found', Tallied app username guesses hashed start found' (c.exec schedule) ∧
      (hashed ≠ "" → found' = found + comparisons username guesses c schedule) := by
  induction schedule generalizing c found with
  | nil => exact ⟨found, h, fun _ => rfl⟩
  | cons i rest ih =>
    obtain ⟨found', hafter, hcount⟩ := ih (tallied_turn hwrong hwithin h i)
    refine ⟨found', hafter, fun hstored => ?_⟩
    obtain ⟨doc, hdoc, htally⟩ := h.doc
    rw [hcount hstored, Nat.add_assoc]
    show _ = found + ((compares username guesses c i).toNat + _)
    rw [compares_eq guesses i hdoc htally.hash, decide_eq_true hstored, Bool.and_true]

theorem bounded_iff_atMost (hwrong : AllWrong app guesses hashed)
    (hwithin : WithinLock app guesses start)
    (h : Tallied app username guesses hashed start 0 c) :
    Bounded n username guesses c schedule ↔ comparisons username guesses c schedule ≤ n := by
  refine ⟨Bounded.atMost, fun hle => ⟨hle, fun before i after hsplit hfailures => ?_⟩⟩
  obtain ⟨found, hbefore, hcount⟩ := tallied_exec hwrong hwithin before h
  obtain ⟨doc, hdoc, htally⟩ := hbefore.doc
  cases hcompares : compares username guesses (c.exec before) i with
  | false => rfl
  | true =>
    have hstored : hashed ≠ "" := by
      rw [compares_eq guesses i hdoc htally.hash, Bool.and_eq_true] at hcompares
      exact of_decide_eq_true hcompares.2
    have hrecorded : n ≤ doc.failedLoginAttempts.getD 0 := by
      unfold failures at hfailures
      rw [hdoc] at hfailures
      exact hfailures
    have htotal := htally.count
    rw [hsplit, comparisons_append] at hle
    replace hle : _ + ((compares username guesses (c.exec before) i).toNat + _) ≤ n := hle
    rw [hcompares] at hle
    replace hle : comparisons username guesses c before + (1 + _) ≤ n := hle
    have hfound := hcount hstored
    omega

theorem tallied_guessPool (hdoc : findDoc username s.users = some doc)
    (hcount : doc.failedLoginAttempts.getD 0 = 0) (hlock : doc.lockedUntil = none) :
    Tallied app username guesses (doc.hashedPassword.getD "") start 0
      (guessPool app username guesses s) := by
  refine ⟨fun i => .begins, doc, hdoc, rfl, ?_, fun _ => ?_, fun t ht => ?_⟩
  · rw [hcount, Nat.zero_add]
    exact Pool.standing_eq_zero fun _ => rfl
  · exact Pool.standing_eq_zero fun _ => rfl
  · cases hlock.symm.trans ht

/-- At most as many calls compare as the threshold says, and none that begins behind the last of
these failures, if and only if no call begins between the first calls and the setting of the
lock. -/
theorem lockout_bounds_iff_inTime (app : App) (username : String) (guesses : Fin k → Guess)
    (s : State) (doc : UserDoc) (start : Nat) (schedule : List (Fin k))
    (hdoc : findDoc username s.users = some doc) (hcount : doc.failedLoginAttempts.getD 0 = 0)
    (hlock : doc.lockedUntil = none)
    (hwrong : AllWrong app guesses (doc.hashedPassword.getD ""))
    (hwithin : WithinLock app guesses start) :
    Bounded app.accountLockoutThreshold username guesses (guessPool app username guesses s)
        schedule ↔
      AllMeet Pool.turn (InTime app.accountLockoutThreshold username)
        (guessPool app username guesses s) schedule := by
  have htallied : Tallied app username guesses (doc.hashedPassword.getD "") start 0 _ :=
    tallied_guessPool hdoc hcount hlock
  rw [bounded_iff_atMost hwrong hwithin htallied]
  by_cases hstored : doc.hashedPassword.getD "" = ""
  · rw [hstored] at hwrong htallied
    obtain ⟨hzero, hall⟩ : comparisons username guesses _ schedule = 0 ∧
        AllMeet Pool.turn (InTime app.accountLockoutThreshold username) _ schedule :=
      all_of_tallied hwrong hwithin htallied
    exact iff_of_true (hzero.trans_le (Nat.zero_le _)) hall
  · rw [← le_iff_of_tallied hstored hwrong hwithin (Nat.zero_le _) htallied, Nat.zero_add]

end Counting

section Sample

def guessedUser : UserDoc where
  id := "1"
  username := "admin"
  email := "admin@example.com"
  hashedPassword := some "secret"

def guessedState : State := ⟨[guessedUser], .empty, false, [], []⟩

def strictApp : App := { sampleApp with accountLockoutThreshold := 1 }

def wrongGuesses : Fin 2 → Guess := fun _ => ⟨sampleClient, "guess"⟩

theorem allWrong_wrongGuesses : AllWrong strictApp wrongGuesses "secret" := fun _ => rfl

theorem withinLock_wrongGuesses : WithinLock strictApp wrongGuesses sampleClient.checkedAt := by
  intro i
  show 0 ≤ 0 ∧ 0 < 0 + minutes 15
  decide

/-- The second call begins behind the setting of the lock. -/
theorem lockout_bounds_iff_inTime_strict :
    Bounded 1 "admin" wrongGuesses (guessPool strictApp "admin" wrongGuesses guessedState)
        [0, 0, 0, 1] ↔
      AllMeet Pool.turn (InTime 1 "admin")
        (guessPool strictApp "admin" wrongGuesses guessedState) [0, 0, 0, 1] :=
  lockout_bounds_iff_inTime strictApp "admin" wrongGuesses guessedState guessedUser
    sampleClient.checkedAt [0, 0, 0, 1] rfl rfl rfl allWrong_wrongGuesses withinLock_wrongGuesses

/-- The second call begins behind the recorded failure and before the lock is set. -/
theorem compares_before_lock :
    ¬∀ (k : Nat) (app : App) (username : String) (guesses : Fin k → Guess) (s : State)
      (doc : UserDoc) (start : Nat) (schedule : List (Fin k)), 1 ≤ app.accountLockoutThreshold →
        findDoc username s.users = some doc → doc.failedLoginAttempts.getD 0 = 0 →
        doc.lockedUntil = none → AllWrong app guesses (doc.hashedPassword.getD "") →
        WithinLock app guesses start →
        Bounded app.accountLockoutThreshold username guesses (guessPool app username guesses s)
          schedule := by
  intro hclaim
  have hbounded := hclaim 2 strictApp "admin" wrongGuesses guessedState guessedUser
    sampleClient.checkedAt [0, 0, 1] (le_refl 1) rfl rfl rfl allWrong_wrongGuesses
    withinLock_wrongGuesses
  have hlate := hbounded.noneLater [0, 0] 1 [] rfl (by decide +kernel)
  exact absurd hlate (by decide +kernel)

end Sample

end Sentora.Auth.Logins
