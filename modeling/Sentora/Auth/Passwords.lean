import Mathlib.Data.List.Forall2
import Sentora.Auth.Logins
import Sentora.Lib.Fallible

/-!
# Password history

The endpoint `change_password` of `domains/auth/router.py`, with
`check_password_history` and `change_user_password` of `domains/auth/service.py`.

A change puts the hash of the password it replaces in front of the history and
compares the new password with the history it finds.  The current password is in
neither of the two.
-/

namespace Sentora.Auth.Passwords

open Lib
open Process (throwIf)
open Logins (Failure httpError)

structure HistoryEntry where
  hash : Option String
  setAt : Nat

structure PasswordDoc extends UserDoc where
  passwordHistory : Option (List HistoryEntry) := none
  passwordChangedAt : Option Nat := none

structure State where
  users : List PasswordDoc
  auth : AuthStore

def State.setAuth (auth : AuthStore) (s : State) : State := { s with auth := auth }

def findDoc (username : String) (users : List PasswordDoc) : Option PasswordDoc :=
  users.find? fun d => d.username == username

/-- The fields of the config that a change reads. -/
structure Policy where
  passwordMinLength : Nat
  passwordHistoryCount : Nat
  passwordCheckBreached : Bool

/-- The config, the decryption and bcrypt, which raises on passwords of more than 72
bytes.  `hashpw` gets the salt that is drawn. -/
structure App where
  decrypt : Decrypt
  hashpw : String → String → Option String
  checkpw : String → String → Option Bool
  cfg : Policy

/-- The payload, the claims of the access token, whether the address is over the
limit, what the breach service answers, and what is drawn and read from the
clock. -/
structure Request where
  sub : String
  sid : Option String := none
  currentPassword : String
  newPassword : String
  limited : Bool := false
  breached : Bool := false
  salt : String
  setAt : Nat
  changedAt : Nat
  revokedAt : Nat

inductive Op where
  | findUser | changeUserPassword
  | auth (op : AuthOp)
deriving DecidableEq

abbrev Change := ExceptT Failure (Process State Op)

def verifyPassword (app : App) (plain hashed : String) : Except Failure Bool :=
  match app.checkpw plain hashed with
  | some matched => .ok matched
  | none => .error .raised

def passwordMatches (app : App) (plain hashed : String) : Except Failure Bool :=
  if hashed = "" then .ok false else verifyPassword app plain hashed

def checkPasswordHistory (app : App) (password : String) :
    List HistoryEntry → Except Failure Bool
  | [] => .ok false
  | entry :: rest => do
    let matched ← passwordMatches app password (entry.hash.getD "")
    if matched then .ok true else checkPasswordHistory app password rest

/-- A count of zero turns the check off. -/
def reusesPassword (app : App) (password : String) (history : List HistoryEntry) :
    Except Failure Bool :=
  if 0 < app.cfg.passwordHistoryCount then checkPasswordHistory app password history
  else .ok false

def refuseIf (c : Bool) (e : Failure) : Except Failure Unit := if c then .error e else .ok ()

def hashPassword (app : App) (password salt : String) : Except Failure String :=
  match app.hashpw password salt with
  | some hashed => .ok hashed
  | none => .error .raised

/-- The slice `history[: count - 1]`. -/
def olderHistory (count : Nat) (history : List HistoryEntry) : List HistoryEntry :=
  if count = 0 then history.dropLast else history.take (count - 1)

/-- The checks between the look-up and the update, with the new hash and the new
history. -/
def acceptChange (app : App) (r : Request) (doc : PasswordDoc) :
    Except Failure (String × List HistoryEntry) := do
  let user ← (docToUser app.decrypt doc.toUserDoc).mapError .unreadable
  let correct ← passwordMatches app r.currentPassword user.hashedPassword
  refuseIf (!correct) (httpError 401 "Current password is incorrect")
  refuseIf (r.newPassword.length < app.cfg.passwordMinLength)
    (httpError 400 ("Password must be at least " ++ toString app.cfg.passwordMinLength ++
      " characters"))
  let reused ← reusesPassword app r.newPassword (doc.passwordHistory.getD [])
  refuseIf reused (httpError 400 ("Cannot reuse any of your last " ++
    toString app.cfg.passwordHistoryCount ++ " passwords"))
  refuseIf (app.cfg.passwordCheckBreached && r.breached)
    (httpError 400 "This password has been found in a data breach")
  let newHash ← hashPassword app r.newPassword r.salt
  .ok (newHash, ⟨some user.hashedPassword, r.setAt⟩ ::
    olderHistory app.cfg.passwordHistoryCount (doc.passwordHistory.getD []))

def changeUserPassword (username newHash : String) (history : List HistoryEntry) (changedAt : Nat)
    (s : State) : State :=
  { s with users := updateFirst (fun d => d.username == username) (fun d =>
      { d with
        hashedPassword := some newHash
        passwordHistory := some history
        passwordChangedAt := some changedAt }) s.users }

def storeChange (r : Request) (newHash : String) (history : List HistoryEntry) : Change Unit := do
  liftM (Process.write Op.changeUserPassword (changeUserPassword r.sub newHash history
    r.changedAt) : Process State Op Unit)
  let _revoked ← liftM ((revokeAllUserSessions r.sub "password_changed" r.sid
    r.revokedAt).zoom State.auth State.setAuth Op.auth)
  pure ()

def changePassword (app : App) (r : Request) : Change Unit := do
  throwIf r.limited (httpError 429 "Rate limit exceeded — max 5 requests per 300s")
  let found ← liftM (Process.read Op.findUser fun s : State => findDoc r.sub s.users)
  match found with
  | none => throw (httpError 404 "User not found")
  | some doc =>
    match acceptChange app r doc with
    | .error e => throw e
    | .ok (newHash, history) => storeChange r newHash history

section Changes

variable {app : App} {r : Request} {s : State} {doc : PasswordDoc}

theorem refuseIf_eq_ok {c : Bool} {e : Failure} {u : Unit} :
    refuseIf c e = .ok u ↔ c = false := by
  cases c with
  | true => exact ⟨fun h => (by cases h), fun h => (by cases h)⟩
  | false => exact ⟨fun _ => rfl, fun _ => rfl⟩

/-- What an accepted change has found, and what it stores. -/
structure Accepted (app : App) (r : Request) (doc : PasswordDoc) (newHash : String)
    (history : List HistoryEntry) : Prop where
  current : doc.hashedPassword.getD "" ≠ ""
  unused : 0 < app.cfg.passwordHistoryCount →
    checkPasswordHistory app r.newPassword (doc.passwordHistory.getD []) = .ok false
  hashed : app.hashpw r.newPassword r.salt = some newHash
  recorded : history = ⟨some (doc.hashedPassword.getD ""), r.setAt⟩ ::
    olderHistory app.cfg.passwordHistoryCount (doc.passwordHistory.getD [])

theorem accepted_of_ok {newHash : String} {history : List HistoryEntry}
    (h : acceptChange app r doc = .ok (newHash, history)) :
    Accepted app r doc newHash history := by
  unfold acceptChange at h
  obtain ⟨user, huser, h⟩ := bind_eq_ok.mp h
  obtain ⟨correct, hcorrect, h⟩ := bind_eq_ok.mp h
  obtain ⟨_, hright, h⟩ := bind_eq_ok.mp h
  obtain ⟨-, -, h⟩ := bind_eq_ok.mp h
  obtain ⟨reused, hreused, h⟩ := bind_eq_ok.mp h
  obtain ⟨_, hunused, h⟩ := bind_eq_ok.mp h
  obtain ⟨-, -, h⟩ := bind_eq_ok.mp h
  obtain ⟨hash, hhash, h⟩ := bind_eq_ok.mp h
  have hsame : user.hashedPassword = doc.hashedPassword.getD "" := by
    cases hread : docToUser app.decrypt doc.toUserDoc with
    | error e => rw [hread] at huser; cases huser
    | ok u =>
      rw [hread] at huser
      obtain ⟨_, _, _, -, -, -, hu⟩ := docToUser_ok_iff.mp hread
      rw [← Except.ok.inj huser, hu]
  rw [hsame] at hcorrect h
  rw [refuseIf_eq_ok] at hright hunused
  obtain ⟨rfl, rfl⟩ := Prod.mk.inj (Except.ok.inj h)
  refine ⟨fun hempty => ?_, fun hcount => ?_, ?_, rfl⟩
  · unfold passwordMatches at hcorrect
    rw [if_pos hempty] at hcorrect
    cases hcorrect
    cases hright
  · unfold reusesPassword at hreused
    rw [if_pos hcount, hunused] at hreused
    exact hreused
  · unfold hashPassword at hhash
    cases hpw : app.hashpw r.newPassword r.salt with
    | none => rw [hpw] at hhash; cases hhash
    | some hashed =>
      rw [hpw] at hhash
      rw [Except.ok.inj hhash]

def change (app : App) (r : Request) (s : State) : State × Except Failure Unit :=
  Process.run (changePassword app r).run s

theorem returns_storeChange (r : Request) (newHash : String) (history : List HistoryEntry)
    (s : State) : ∃ s', Process.Returns (storeChange r newHash history) s () s' ∧
      s'.users = (changeUserPassword r.sub newHash history r.changedAt s).users := by
  let stored := changeUserPassword r.sub newHash history r.changedAt s
  let revoked := (revokeAllUserSessions r.sub "password_changed" r.sid r.revokedAt).run stored.auth
  have hzoom : ((revokeAllUserSessions r.sub "password_changed" r.sid r.revokedAt).zoom State.auth
      State.setAuth Op.auth).run stored = (stored.setAuth revoked.1, revoked.2) := by
    refine Process.run_zoom ?_ ?_ ?_ _ stored
    · exact fun _ _ => rfl
    · exact fun _ _ _ => rfl
    · exact fun _ => rfl
  refine ⟨stored.setAuth revoked.1, ?_, rfl⟩
  refine Process.returns_bind.mpr ⟨(), stored, Process.returns_lift.mpr rfl, ?_⟩
  refine Process.returns_bind.mpr ⟨revoked.2, _, Process.returns_lift.mpr hzoom, ?_⟩
  exact Process.returns_pure.mpr ⟨rfl, rfl⟩

theorem change_cases (app : App) (r : Request) (s : State) :
    (∃ e, change app r s = (s, .error e)) ∨
      ∃ doc newHash history, findDoc r.sub s.users = some doc ∧
        acceptChange app r doc = .ok (newHash, history) ∧ (change app r s).2 = .ok () ∧
        (change app r s).1.users =
          (changeUserPassword r.sub newHash history r.changedAt s).users := by
  unfold change changePassword
  rw [Process.run_except_bind]
  cases hlimited : r.limited with
  | true => exact Or.inl ⟨_, rfl⟩
  | false =>
    show (∃ e, Process.run (match findDoc r.sub s.users with | none => _ | some doc => _) s = _) ∨
      ∃ doc newHash history, _ ∧ _ ∧
        (Process.run (match findDoc r.sub s.users with | none => _ | some doc => _) s).2 = _ ∧
        (Process.run (match findDoc r.sub s.users with | none => _ | some doc => _) s).1.users = _
    cases hfound : findDoc r.sub s.users with
    | none => exact Or.inl ⟨_, rfl⟩
    | some doc =>
      dsimp only
      cases haccept : acceptChange app r doc with
      | error e => exact Or.inl ⟨e, rfl⟩
      | ok accepted =>
        right
        obtain ⟨s', hreturns, husers⟩ := returns_storeChange r accepted.1 accepted.2 s
        refine ⟨doc, accepted.1, accepted.2, rfl, haccept, ?_, ?_⟩
        · exact congrArg Prod.snd hreturns
        · rw [← husers]
          exact congrArg (fun p : State × Except Failure Unit => p.1.users) hreturns

end Changes

/-- bcrypt accepts the password a hash was made from. -/
def AcceptsOwn (app : App) : Prop :=
  ∀ password salt hashed, app.hashpw password salt = some hashed →
    hashed ≠ "" ∧ app.checkpw password hashed = some true

def afterRequests (app : App) (s : State) (rs : List Request) : State :=
  rs.foldl (fun s r => (change app r s).1) s

/-- The passwords that have been in force, the current one first, where `ps` are
those before the requests. -/
def inForce (app : App) : State → List String → List Request → List String
  | _, ps, [] => ps
  | s, ps, r :: rs =>
    inForce app (change app r s).1
      (if (change app r s).2.isOk then r.newPassword :: ps else ps) rs

structure Registered (app : App) (x password : String) (s : State) : Prop where
  stored : ∃ doc hashed salt, findDoc x s.users = some doc ∧ doc.hashedPassword = some hashed ∧
    app.hashpw password salt = some hashed ∧ doc.passwordHistory.getD [] = []

def Hashes (app : App) (entry : HistoryEntry) (password : String) : Prop :=
  ∃ salt hashed, entry.hash = some hashed ∧ app.hashpw password salt = some hashed

/-- The document of the user holds hashes of the current password and of the ones
before it, as many as are kept. -/
def Recorded (app : App) (x : String) (s : State) (ps : List String) : Prop :=
  ∃ doc current previous hashed salt, findDoc x s.users = some doc ∧ ps = current :: previous ∧
    doc.hashedPassword = some hashed ∧ app.hashpw current salt = some hashed ∧
    List.Forall₂ (Hashes app) (doc.passwordHistory.getD [])
      (previous.take app.cfg.passwordHistoryCount)

section Histories

variable {app : App} {x : String} {s : State} {ps : List String} {r : Request}

theorem Registered.recorded {password : String} (h : Registered app x password s) :
    Recorded app x s [password] := by
  obtain ⟨doc, hashed, salt, hdoc, hstored, hhash, hnone⟩ := h.stored
  refine ⟨doc, password, [], hashed, salt, hdoc, rfl, hstored, hhash, ?_⟩
  rw [hnone, List.take_nil]
  exact List.Forall₂.nil

theorem checkPasswordHistory_of_hashes (hbcrypt : AcceptsOwn app) {entry : HistoryEntry}
    {password : String} (hentry : Hashes app entry password) {history : List HistoryEntry}
    (hmem : entry ∈ history) : checkPasswordHistory app password history ≠ .ok false := by
  induction history with
  | nil => exact absurd hmem List.not_mem_nil
  | cons e history ih =>
    intro hunused
    obtain ⟨matched, hmatched, hrest⟩ := bind_eq_ok.mp hunused
    rcases List.mem_cons.mp hmem with rfl | hmem
    · obtain ⟨salt, hashed, hhash, hpw⟩ := hentry
      obtain ⟨hne, hcheck⟩ := hbcrypt password salt hashed hpw
      have htrue : passwordMatches app password (entry.hash.getD "") = .ok true := by
        rw [hhash, Option.getD_some]
        unfold passwordMatches verifyPassword
        rw [if_neg hne, hcheck]
      rw [htrue] at hmatched
      cases hmatched
      cases hrest
    · cases matched with
      | true => cases hrest
      | false => exact ih hmem hrest

theorem exists_of_mem_right {α β : Type} {R : α → β → Prop} {l : List α} {l' : List β}
    (h : List.Forall₂ R l l') {b : β} (hb : b ∈ l') : ∃ a ∈ l, R a b := by
  induction h with
  | nil => exact absurd hb List.not_mem_nil
  | @cons a b' l l' hab _ ih =>
    rcases List.mem_cons.mp hb with rfl | hb
    · exact ⟨a, List.mem_cons_self, hab⟩
    · obtain ⟨c, hc, hcb⟩ := ih hb
      exact ⟨c, List.mem_cons_of_mem a hc, hcb⟩

theorem Recorded.not_previous (hbcrypt : AcceptsOwn app) (hcount : 0 < app.cfg.passwordHistoryCount)
    (h : Recorded app x s ps) (hr : r.sub = x) (haccepted : (change app r s).2 = .ok ()) :
    r.newPassword ∉ ps.tail.take app.cfg.passwordHistoryCount := by
  obtain ⟨doc, current, previous, hashed, salt, hdoc, rfl, -, -, hhistory⟩ := h
  rcases change_cases app r s with ⟨e, he⟩ | ⟨doc', newHash, history, hdoc', haccept, -, -⟩
  · rw [he] at haccepted
    cases haccepted
  · intro hmem
    rw [hr, hdoc] at hdoc'
    rw [← Option.some.inj hdoc'] at haccept
    obtain ⟨entry, hentry, hhashes⟩ := exists_of_mem_right hhistory hmem
    exact checkPasswordHistory_of_hashes hbcrypt hhashes hentry
      ((accepted_of_ok haccept).unused hcount)

theorem find?_updateFirst {α : Type} {query : α → Bool} {update : α → α} {l : List α} {d : α}
    (hkeep : ∀ e, query e = true → query (update e) = true) (hfound : l.find? query = some d) :
    (updateFirst query update l).find? query = some (update d) := by
  induction l with
  | nil => cases hfound
  | cons e l ih =>
    rw [updateFirst]
    by_cases he : query e = true
    · rw [List.find?_cons_of_pos he] at hfound
      rw [if_pos he, List.find?_cons_of_pos (hkeep e he), Option.some.inj hfound]
    · rw [List.find?_cons_of_neg he] at hfound
      rw [if_neg he, List.find?_cons_of_neg he]
      exact ih hfound

theorem forall₂_hashes_cons (hcount : 0 < app.cfg.passwordHistoryCount) {entry : HistoryEntry}
    {current : String} {previous : List String} {history : List HistoryEntry}
    (hentry : Hashes app entry current) (hhistory : List.Forall₂ (Hashes app) history
      (previous.take app.cfg.passwordHistoryCount)) :
    List.Forall₂ (Hashes app) (entry :: olderHistory app.cfg.passwordHistoryCount history)
      ((current :: previous).take app.cfg.passwordHistoryCount) := by
  have holder : olderHistory app.cfg.passwordHistoryCount history =
      history.take (app.cfg.passwordHistoryCount - 1) := if_neg (Nat.ne_of_gt hcount)
  have htake := List.forall₂_take (app.cfg.passwordHistoryCount - 1) hhistory
  rw [List.take_take, Nat.min_eq_left (Nat.sub_le _ 1)] at htake
  rw [holder, List.take_cons hcount]
  exact List.Forall₂.cons hentry htake

theorem Recorded.change (hcount : 0 < app.cfg.passwordHistoryCount) (h : Recorded app x s ps)
    (hr : r.sub = x) :
    Recorded app x (change app r s).1
      (if (Passwords.change app r s).2.isOk then r.newPassword :: ps else ps) := by
  rcases change_cases app r s with ⟨e, he⟩ | ⟨doc', newHash, history, hdoc', haccept, hok, husers⟩
  · rw [he]
    exact h
  · obtain ⟨doc, current, previous, hashed, salt, hdoc, rfl, hstored, hhash, hhistory⟩ := h
    rw [hr, hdoc] at hdoc'
    rw [← Option.some.inj hdoc'] at haccept
    obtain ⟨-, -, hnew, hrecorded⟩ := accepted_of_ok haccept
    have hchanged : findDoc x (Passwords.change app r s).1.users = some { doc with
        hashedPassword := some newHash
        passwordHistory := some history
        passwordChangedAt := some r.changedAt } := by
      rw [husers, hr]
      exact find?_updateFirst (fun _ hd => hd) hdoc
    have hentry : Hashes app ⟨some (doc.hashedPassword.getD ""), r.setAt⟩ current := by
      rw [hstored]
      exact ⟨salt, hashed, rfl, hhash⟩
    rw [hok]
    refine ⟨_, r.newPassword, current :: previous, newHash, r.salt, hchanged, rfl, rfl, hnew, ?_⟩
    show List.Forall₂ (Hashes app) history _
    rw [hrecorded]
    exact forall₂_hashes_cons hcount hentry hhistory

theorem Recorded.requests (hcount : 0 < app.cfg.passwordHistoryCount) (h : Recorded app x s ps)
    {rs : List Request} (hrs : ∀ r ∈ rs, r.sub = x) :
    Recorded app x (afterRequests app s rs) (inForce app s ps rs) := by
  induction rs generalizing s ps with
  | nil => exact h
  | cons r rs ih =>
    exact ih (h.change hcount (hrs r List.mem_cons_self))
      fun r' hr' => hrs r' (List.mem_cons_of_mem r hr')

/-- After every sequence of requests of a user, an accepted password is none of
the last ones, as many as the history count says, if and only if it is not the
current one. -/
theorem history_enforced_iff (app : App) (hbcrypt : AcceptsOwn app)
    (hcount : 1 ≤ app.cfg.passwordHistoryCount) (s : State) (x password : String)
    (hregistered : Registered app x password s) (rs : List Request) (hrs : ∀ r ∈ rs, r.sub = x)
    (r : Request) (hr : r.sub = x)
    (haccepted : (change app r (afterRequests app s rs)).2 = .ok ()) :
    r.newPassword ∉ (inForce app s [password] rs).take app.cfg.passwordHistoryCount ↔
      (inForce app s [password] rs).head? ≠ some r.newPassword := by
  have hrecorded := hregistered.recorded.requests hcount hrs
  have hprevious := hrecorded.not_previous hbcrypt hcount hr haccepted
  obtain ⟨-, current, previous, -, -, -, hps, -, -, -⟩ := hrecorded
  rw [hps] at hprevious ⊢
  rw [List.take_cons hcount, List.mem_cons, not_or, List.head?_cons, ne_eq, Option.some.injEq]
  constructor
  · exact fun h heq => h.1 heq.symm
  · intro hne
    refine ⟨fun heq => hne heq.symm, fun hmem => hprevious ?_⟩
    exact List.take_subset_take_left previous (Nat.sub_le _ 1) hmem

end Histories

def sampleApp : App where
  decrypt := some
  hashpw password _ := some ("$2b$" ++ password)
  checkpw password hashed := some (hashed == "$2b$" ++ password)
  cfg := ⟨12, 5, false⟩

theorem sampleApp_acceptsOwn : AcceptsOwn sampleApp := by
  intro password salt hashed h
  obtain rfl : "$2b$" ++ password = hashed := Option.some.inj h
  refine ⟨fun hempty => ?_, congrArg some (beq_self_eq_true _)⟩
  have hlength := congrArg String.length hempty
  simp at hlength

def sampleState : State where
  users := [{ id := "1", username := "alice", email := "alice@example.com"
              hashedPassword := some "$2b$Password1234" }]
  auth := .empty

theorem sampleState_registered : Registered sampleApp "alice" "Password1234" sampleState :=
  ⟨_, _, "", rfl, rfl, rfl, rfl⟩

def sampleRequest (currentPassword newPassword : String) : Request :=
  { sub := "alice", currentPassword := currentPassword, newPassword := newPassword
    salt := "", setAt := 0, changedAt := 0, revokedAt := 0 }

theorem history_enforced_second :
    "Password9012" ∉ (inForce sampleApp sampleState ["Password1234"]
      [sampleRequest "Password1234" "Password5678"]).take 5 := by
  have hfresh := history_enforced_iff sampleApp sampleApp_acceptsOwn (by decide) sampleState "alice"
    "Password1234" sampleState_registered [sampleRequest "Password1234" "Password5678"]
    (by
      intro r hr
      rw [List.mem_singleton.mp hr]
      rfl)
    (sampleRequest "Password5678" "Password9012") rfl rfl
  exact hfresh.mpr (by decide)

/-- The current password is accepted as the new one. -/
theorem current_password_reused :
    ¬∀ (app : App), AcceptsOwn app → 1 ≤ app.cfg.passwordHistoryCount →
      ∀ (s : State) (x password : String), Registered app x password s →
      ∀ rs : List Request, (∀ r ∈ rs, r.sub = x) → ∀ r : Request, r.sub = x →
      (change app r (afterRequests app s rs)).2 = .ok () →
      r.newPassword ∉ (inForce app s [password] rs).take app.cfg.passwordHistoryCount := by
  intro hclaim
  have hfresh := hclaim sampleApp sampleApp_acceptsOwn (by decide) sampleState "alice"
    "Password1234" sampleState_registered [] (List.forall_mem_nil _)
    (sampleRequest "Password1234" "Password1234") rfl rfl
  exact hfresh List.mem_cons_self

end Sentora.Auth.Passwords
