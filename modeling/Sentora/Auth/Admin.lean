import Sentora.Auth.Accounts
import Sentora.Auth.SessionCache

/-!
# User management

The endpoints of `domains/auth/router.py` that change the role, the status and
the sessions of other users, and the cache of `utils/user_revocation.py`, as
processes over the databases and the memory of one process.
-/

namespace Sentora.Auth

open Lib Process

structure Database where
  users : List UserDoc
  auth : AuthStore

/-- The databases by name, and the two sets of the process. -/
structure AppState where
  databases : String → Database
  revokedUsernames : List String
  revokedSessionIds : List String

namespace AppState

def setDatabase (db : String) (d : Database) (s : AppState) : AppState :=
  { s with databases := Function.update s.databases db d }

def findUser (s : AppState) (db username : String) : Option UserDoc :=
  findDoc username (s.databases db).users

def updateUser (db username : String) (change : Change) (s : AppState) : AppState :=
  s.setDatabase db
    ⟨updateDoc username change.apply (s.databases db).users, (s.databases db).auth⟩

def sessions (db : String) (s : AppState) : CacheState :=
  ⟨(s.databases db).auth, s.revokedSessionIds⟩

def setSessions (db : String) (c : CacheState) (s : AppState) : AppState :=
  { s.setDatabase db ⟨(s.databases db).users, c.store⟩ with
    revokedSessionIds := c.revokedSessionIds }

def isUserRevoked (s : AppState) (username : String) : Bool :=
  s.revokedUsernames.contains username

def markUserRevoked (username : String) (s : AppState) : AppState :=
  { s with revokedUsernames := s.revokedUsernames ++ [username] }

def markUserRestored (username : String) (s : AppState) : AppState :=
  { s with revokedUsernames := s.revokedUsernames.filter (fun u => u ≠ username) }

end AppState

/-- What the endpoints depend on besides the state: the key that decrypts fields
and the name of the default database. -/
structure App where
  decrypt : Decrypt
  mongoDb : String

/-- What a request asks for, and the times at which it reads the clock. -/
inductive Action where
  | updateUserRole (role : UserRole) (now : Nat)
  | updateUserDisabled (disabled : Bool) (now : Nat)
  | updateUserStatus (status : AccountStatus) (now : Nat)
  | deleteUser (deletedAt now : Nat)
  | adminRevokeSessions (now : Nat)
deriving DecidableEq

/-- Who asks, in which database, about whom, and for what. -/
structure Request where
  actor : TokenPayload
  database : String
  username : String
  action : Action
deriving DecidableEq

inductive AccountOp where
  | findUser
  | updateUser (change : Change)
  | sessions (op : CacheOp)
  | markRevoked
  | markRestored

/-- The steps of a request on its user, and those of a refresh of the revoked
users, with what it has collected and what it still has to read. -/
inductive AdminOp where
  | account (r : Request) (op : AccountOp)
  | openUsers
  | usersCursor (collected remaining : List String)

inductive Failure where
  | http (e : HttpError)
  | unreadable (e : DocError)

abbrev Admin := Process AppState AdminOp

abbrev Outcome (α : Type) := Except Failure α

def AppState.getUser (app : App) (db username : String) (s : AppState) :
    Except DocError (Option User) :=
  match s.findUser db username with
  | none => .ok none
  | some doc => (docToUser app.decrypt doc).map some

def getUserByUsername (app : App) (r : Request) : Admin (Except DocError (Option User)) :=
  .read (.account r .findUser) (AppState.getUser app r.database r.username)

def updateUserInDb (r : Request) (change : Change) : Admin Unit :=
  .write (.account r (.updateUser change)) (AppState.updateUser r.database r.username change)

def inSessions {α : Type} (r : Request) (p : Process CacheState CacheOp α) :
    Admin α :=
  p.zoom (AppState.sessions r.database) (AppState.setSessions r.database)
    fun op => .account r (.sessions op)

def revokeTokensOf (r : Request) : Admin Nat :=
  inSessions r (inStore none (revokeUserTokens r.username))

def revokeSessionsOf (r : Request) (reason : String) (now : Nat) : Admin Nat :=
  inSessions r (revokeAllUserSessionsMarked r.username reason none now)

def markRevoked (r : Request) : Admin Unit :=
  .write (.account r .markRevoked) (AppState.markUserRevoked r.username)

def markRestored (r : Request) : Admin Unit :=
  .write (.account r .markRestored) (AppState.markUserRestored r.username)

def endAccess (r : Request) (reason : String) (now : Nat) : Admin Unit := do
  let _tokens ← revokeTokensOf r
  let _sessions ← revokeSessionsOf r reason now
  markRevoked r

def refuse {α : Type} (statusCode : Nat) (detail : String) : Admin (Outcome α) :=
  .ret (.error (.http ⟨statusCode, detail⟩))

def UserRole.isProtected (role : UserRole) : Bool := role = .admin || role = .superAdmin

/-- The texts of an endpoint's guards. -/
structure Guards where
  self : String
  target : String

def checkTarget {α : Type} (g : Guards) (r : Request) (body : User → Admin (Outcome α)) :
    Except DocError (Option User) → Admin (Outcome α)
  | .error e => .ret (.error (.unreadable e))
  | .ok none => refuse 404 "User not found"
  | .ok (some user) =>
    if user.role.isProtected ∧ r.actor.role ≠ UserRole.superAdmin.value then refuse 403 g.target
    else body user

def guarded {α : Type} (app : App) (g : Guards) (r : Request) (early : Option HttpError)
    (body : User → Admin (Outcome α)) : Admin (Outcome α) :=
  if r.username = r.actor.sub then refuse 400 g.self
  else
    match early with
    | some e => .ret (.error (.http e))
    | none => getUserByUsername app r >>= checkTarget g r body

structure UserResponse where
  id : String
  username : String
  email : String
  role : UserRole
  disabled : Bool
  totpEnabled : Bool
  status : AccountStatus

def userToResponse (user : User) : UserResponse :=
  ⟨user.id, user.username, user.email, user.role, user.disabled, user.totpEnabled, user.status⟩

def updateUserRole (app : App) (r : Request) (role : UserRole) (now : Nat) :
    Admin (Outcome UserResponse) :=
  guarded app
    ⟨"Cannot change your own role", "Only super_admin can modify admin or super_admin roles"⟩ r
    (if role = .superAdmin ∧ r.actor.role ≠ UserRole.superAdmin.value then
      some ⟨403, "Only super_admin can escalate to super_admin role"⟩
    else none)
    fun user => do
      updateUserInDb r (.role role)
      let _tokens ← revokeTokensOf r
      let _sessions ← revokeSessionsOf r "role_changed" now
      pure (.ok { userToResponse user with role := role })

def updateUserDisabled (app : App) (r : Request) (disabled : Bool) (now : Nat) :
    Admin (Outcome UserResponse) :=
  guarded app
    ⟨"Cannot disable or enable your own account",
      "Only super_admin can disable or enable admin/super_admin users"⟩ r none
    fun user => do
      let newStatus := if disabled then .deactivated else .active
      updateUserInDb r (.status disabled newStatus)
      if disabled then endAccess r "account_disabled" now else markRestored r
      pure (.ok { userToResponse user with disabled := disabled, status := newStatus })

def nonActive : List AccountStatus := [.suspended, .deactivated, .deleted]

def validTransitions : AccountStatus → List AccountStatus
  | .active => nonActive
  | .invited => [.active, .deleted]
  | .suspended => .active :: nonActive
  | .deactivated => [.active, .deleted]
  | .deleted => []

def updateUserStatus (app : App) (r : Request) (status : AccountStatus) (now : Nat) :
    Admin (Outcome UserResponse) :=
  guarded app
    ⟨"Cannot change your own account status",
      "Only super_admin can change admin/super_admin user status"⟩ r none
    fun user =>
      if status ∉ validTransitions user.status then
        refuse 400
          ("Cannot transition from '" ++ user.status.value ++ "' to '" ++ status.value ++ "'")
      else do
        let disabled := decide (status ∈ nonActive)
        updateUserInDb r (.status disabled status)
        if disabled then endAccess r ("status_changed_" ++ status.value) now else markRestored r
        pure (.ok { userToResponse user with disabled := disabled, status := status })

/-- `deletedAt` and `now` are the times at which the two functions read the
clock. -/
def deleteUser (app : App) (r : Request) (deletedAt now : Nat) : Admin (Outcome Unit) :=
  guarded app ⟨"Cannot delete your own account", "Only super_admin can delete admin accounts"⟩ r
    none fun _ => do
      updateUserInDb r (.deleted deletedAt)
      endAccess r "account_deleted" now
      pure (.ok ())

def adminRevokeSessions (r : Request) (now : Nat) : Admin (Outcome Unit) := do
  let _sessions ← revokeSessionsOf r "admin_revoked" now
  let _tokens ← revokeTokensOf r
  pure (.ok ())

def blockedDoc (d : UserDoc) : Bool :=
  d.disabled == some true || nonActive.any fun status => d.status == some status.value

/-- The user with the name is found blocked in the database. -/
def AppState.blocked (s : AppState) (db username : String) : Bool :=
  (s.findUser db username).any blockedDoc

/-- A refresh collects the user, unless the name is empty. -/
def AppState.collects (s : AppState) (app : App) (username : String) : Bool :=
  s.blocked app.mongoDb username && username != ""

inductive AdminReply where
  | failed (e : Failure)
  | user (u : UserResponse)
  | done
  | refreshed

def refreshUsersFrom (app : App) : List String → List String → Admin AdminReply :=
  sweep .usersCursor (fun username s => s.collects app username)
    (fun usernames s => { s with revokedUsernames := usernames }) .refreshed

def refreshRevokedUsers (app : App) : Admin AdminReply :=
  .step .openUsers (fun s => s) fun s =>
    refreshUsersFrom app [] ((s.databases app.mongoDb).users.map UserDoc.username)

inductive AdminCall where
  | request (r : Request)
  | refreshRevokedUsers

def reply {α : Type} (f : α → AdminReply) : Outcome α → AdminReply
  | .ok a => f a
  | .error e => .failed e

def replyOf {α : Type} (f : α → AdminReply) (p : Admin (Outcome α)) : Admin AdminReply :=
  p >>= fun outcome => .ret (reply f outcome)

def handle (app : App) (r : Request) : Admin AdminReply :=
  match r.action with
  | .updateUserRole role now => replyOf .user (updateUserRole app r role now)
  | .updateUserDisabled disabled now => replyOf .user (updateUserDisabled app r disabled now)
  | .updateUserStatus status now => replyOf .user (updateUserStatus app r status now)
  | .deleteUser deletedAt now => replyOf (fun _ => .done) (deleteUser app r deletedAt now)
  | .adminRevokeSessions now => replyOf (fun _ => .done) (adminRevokeSessions r now)

/-- Every endpoint depends on `require_role(UserRole.admin)`. -/
def adminProgram (app : App) : AdminCall → Admin AdminReply
  | .request r =>
    match requireRole [UserRole.admin.value] r.actor with
    | .error e => pure (.failed (.http e))
    | .ok _ => handle app r
  | .refreshRevokedUsers => refreshRevokedUsers app

abbrev AdminPool := Pool Nat AppState AdminOp (fun _ => AdminReply)

abbrev AdminActs := List (Pool.Act Nat AdminCall)

def adminIdle (s : AppState) : AdminPool := ⟨s, fun _ => .ret .refreshed⟩

/-- Nothing is encrypted, and `sentora` is the default database. -/
def sampleApp : App := ⟨some, "sentora"⟩

end Sentora.Auth
