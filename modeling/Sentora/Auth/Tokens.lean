import Sentora.Lib.Process

/-!
# Refresh tokens and sessions

The refresh tokens of `domains/auth/service.py` and the sessions of
`domains/auth/session_service.py` as processes over the two collections, one
step for each database operation.

A login starts a family of refresh tokens.  A rotation uses one token up and
inserts the next one of its family; a revocation deletes all tokens of a family.
What `secrets` draws is an argument of the call that draws it.
-/

namespace Sentora.Auth

open Lib

structure TokenDoc where
  tokenId : String
  familyId : String
  username : String
  role : String
  expiresAt : Nat
  createdAt : Nat
  used : Bool

structure SessionDoc where
  sessionId : String
  userId : String
  username : String
  tenantId : Option String
  createdAt : Nat
  lastActiveAt : Nat
  expiresAt : Nat
  ipAddress : String
  userAgent : String
  isActive : Bool
  revokedAt : Option Nat
  revokedReason : Option String
  refreshTokenFamily : String
deriving DecidableEq

structure AuthStore where
  refreshTokens : List TokenDoc
  sessions : List SessionDoc

def AuthStore.empty : AuthStore := ⟨[], []⟩

/-- The database operations, with the family of those a rotation makes between
using a token up and inserting the next. -/
inductive AuthOp where
  | useToken | deleteTokens | findSession (family : String) | insertToken (family : String)
  | insertSession | deactivateSession | listSessions | deactivateSessions
deriving DecidableEq

inductive AuthError where
  | valueError (message : String)
  | duplicateKey (id : String)

structure TokenPair where
  accessToken : String
  refreshToken : String

structure Claims where
  sub : Option String := none
  role : Option String := none
  type : Option String := none
  jti : Option String := none
  fam : Option String := none
  iss : Option String := none
  aud : Option String := none
  sid : Option String := none
  tenantId : Option String := none
  exp : Option Nat := none

/-- The settings, and the `jwt` package with the key and algorithm in them.
`decode` gets the time of the call, `decodeExpired` does not verify the
expiry. -/
structure Service where
  jwtAccessExpireMinutes : Nat
  jwtRefreshExpireDays : Nat
  sessionMaxLifetimeDays : Nat
  encode : Claims → String
  decode : Nat → String → Except String Claims
  decodeExpired : String → Except String Claims

def days (n : Nat) : Nat := n * 86400

def minutes (n : Nat) : Nat := n * 60

/-- A claim that is neither missing nor empty. -/
def present (v : Option String) : Option String := v.filter (fun s => s ≠ "")

/-- `create_access_token` with `data = {"sub": …, "role": …}`. -/
def createAccessToken (service : Service) (now : Nat) (accessId username role : String)
    (sessionId tenantId : Option String) : String :=
  service.encode {
    sub := some username
    role := some role
    type := some "access"
    jti := some accessId
    iss := some "sentora"
    aud := some "sentora-api"
    sid := present sessionId
    tenantId := present tenantId
    exp := some (now + minutes service.jwtAccessExpireMinutes) }

/-- Update the first document that matches, as `find_one_and_update` does. -/
def updateFirst {α : Type} (query : α → Bool) (update : α → α) : List α → List α
  | [] => []
  | d :: ds => if query d then update d :: ds else d :: updateFirst query update ds

/-- `insert_one` under the unique index on `token_id`. -/
def insertToken (doc : TokenDoc) (s : AuthStore) : AuthStore × Bool :=
  if s.refreshTokens.any (fun d => d.tokenId == doc.tokenId) then (s, false)
  else ({ s with refreshTokens := s.refreshTokens ++ [doc] }, true)

/-- `find_one_and_update({"token_id": …, "used": False}, {"$set": {"used": True}})`,
with the document before it. -/
def useToken (tokenId : String) (s : AuthStore) : AuthStore × Option TokenDoc :=
  let query := fun d : TokenDoc => d.tokenId == tokenId && !d.used
  ({ s with refreshTokens := updateFirst query (fun d => { d with used := true }) s.refreshTokens },
    s.refreshTokens.find? query)

/-- `delete_many`, with how many documents it deleted. -/
def deleteTokens (query : TokenDoc → Bool) (s : AuthStore) : AuthStore × Nat :=
  ({ s with refreshTokens := s.refreshTokens.filter (fun d => !query d) },
    s.refreshTokens.countP query)

def activeSessionOf (family : String) (s : AuthStore) : Option String :=
  (s.sessions.find? (fun d => d.refreshTokenFamily == family && d.isActive)).map
    SessionDoc.sessionId

/-- `insert_one` under the unique index on `session_id`. -/
def insertSession (doc : SessionDoc) (s : AuthStore) : AuthStore × Bool :=
  if s.sessions.any (fun d => d.sessionId == doc.sessionId) then (s, false)
  else ({ s with sessions := s.sessions ++ [doc] }, true)

def revoked (now : Nat) (reason : String) (d : SessionDoc) : SessionDoc :=
  { d with isActive := false, revokedAt := some now, revokedReason := some reason }

/-- `find_one_and_update` on an active session, with the document before it. -/
def deactivateSession (sessionId : String) (now : Nat) (reason : String) (s : AuthStore) :
    AuthStore × Option SessionDoc :=
  let query := fun d : SessionDoc => d.sessionId == sessionId && d.isActive
  ({ s with sessions := updateFirst query (revoked now reason) s.sessions }, s.sessions.find? query)

/-- `update_many` on the sessions listed, with how many it modified. -/
def deactivateSessions (sessionIds : List String) (now : Nat) (reason : String) (s : AuthStore) :
    AuthStore × Nat :=
  ({ s with sessions := s.sessions.map fun d =>
      if d.sessionId ∈ sessionIds then revoked now reason d else d },
    s.sessions.countP fun d => decide (d.sessionId ∈ sessionIds) && revoked now reason d != d)

/-- `family` is what a login draws. -/
structure Draw where
  now : Nat
  tokenId : String
  family : String := ""

def createRefreshToken (service : Service) (draw : Draw) (username role : String)
    (familyId : Option String) :
    Process AuthStore AuthOp (Except AuthError (String × String)) := do
  let family := (present familyId).getD draw.family
  let expire := draw.now + days service.jwtRefreshExpireDays
  let inserted ← .atomic (.insertToken family) (insertToken {
    tokenId := draw.tokenId
    familyId := family
    username := username
    role := role
    expiresAt := expire
    createdAt := draw.now
    used := false })
  if inserted then
    pure (.ok (service.encode {
      sub := some username
      role := some role
      type := some "refresh"
      jti := some draw.tokenId
      fam := some family
      iss := some "sentora"
      exp := some expire }, family))
  else pure (.error (.duplicateKey draw.tokenId))

structure RotateArgs where
  token : String
  sessionId : Option String := none
  draw : Draw
  accessId : String

structure RefreshClaims where
  tokenId : String
  familyId : String
  username : String
  role : String

/-- The checks a rotation makes before its first database operation. -/
def checkRefreshToken (service : Service) (a : RotateArgs) : Except AuthError RefreshClaims :=
  match service.decode a.draw.now a.token with
  | .error exc => .error (.valueError ("Invalid refresh token: " ++ exc))
  | .ok payload =>
    if payload.type ≠ some "refresh" then
      .error (.valueError "Invalid token type — expected refresh token")
    else
      match present payload.jti, present payload.fam, present payload.sub, present payload.role with
      | some tokenId, some familyId, some username, some role =>
        .ok ⟨tokenId, familyId, username, role⟩
      | _, _, _, _ => .error (.valueError "Refresh token missing required claims")

def findSessionId (a : RotateArgs) (familyId : String) :
    Process AuthStore AuthOp (Option String) :=
  match present a.sessionId with
  | some sessionId => pure (some sessionId)
  | none => .read (.findSession familyId) (activeSessionOf familyId)

def issueNewPair (service : Service) (a : RotateArgs) (c : RefreshClaims)
    (sessionId : Option String) : Process AuthStore AuthOp (Except AuthError TokenPair) := do
  let newAccess := createAccessToken service a.draw.now a.accessId c.username c.role sessionId none
  let created ← createRefreshToken service a.draw c.username c.role (some c.familyId)
  match created with
  | .error e => pure (.error e)
  | .ok (newRefresh, _) => pure (.ok ⟨newAccess, newRefresh⟩)

def rotateRefreshToken (service : Service) (a : RotateArgs) :
    Process AuthStore AuthOp (Except AuthError TokenPair) :=
  match checkRefreshToken service a with
  | .error e => pure (.error e)
  | .ok c => do
    let stored ← .atomic .useToken (useToken c.tokenId)
    match stored with
    | none => do
      -- not found or used before: the whole family goes
      let _deleted ← .atomic .deleteTokens (deleteTokens fun d => d.familyId == c.familyId)
      pure (.error (.valueError "Refresh token has been revoked or reused"))
    | some _ => do
      let sessionId ← findSessionId a c.familyId
      issueNewPair service a c sessionId

def revokeUserTokens (username : String) : Process AuthStore AuthOp Nat :=
  .atomic .deleteTokens (deleteTokens fun d => d.username == username)

def revokeFamily (service : Service) (token : String) : Process AuthStore AuthOp Nat :=
  match service.decodeExpired token with
  | .error _ => pure 0
  | .ok payload =>
    match present payload.fam with
    | none => pure 0
    | some familyId => .atomic .deleteTokens (deleteTokens fun d => d.familyId == familyId)

def revokeSession (sessionId reason : String) (now : Nat) : Process AuthStore AuthOp Bool := do
  let result ← .atomic .deactivateSession (deactivateSession sessionId now reason)
  match result with
  | none => pure false
  | some doc =>
    if doc.refreshTokenFamily ≠ "" then do
      let _deleted ← .atomic .deleteTokens
        (deleteTokens fun d => d.familyId == doc.refreshTokenFamily)
      pure true
    else pure true

def sessionsToRevoke (username : String) (excludeSessionId : Option String) (s : AuthStore) :
    List SessionDoc :=
  s.sessions.filter fun d => d.username == username && d.isActive &&
    match present excludeSessionId with
    | none => true
    | some kept => d.sessionId != kept

def revokeAllUserSessions (username reason : String) (excludeSessionId : Option String)
    (now : Nat) : Process AuthStore AuthOp Nat := do
  let found ← .read .listSessions (sessionsToRevoke username excludeSessionId)
  let sessionIds := found.map SessionDoc.sessionId
  let familyIds := (found.map SessionDoc.refreshTokenFamily).filter (fun f => f ≠ "")
  if sessionIds = [] then pure 0
  else do
    let modified ← .atomic .deactivateSessions (deactivateSessions sessionIds now reason)
    if familyIds ≠ [] then do
      let _deleted ← .atomic .deleteTokens (deleteTokens fun d => familyIds.contains d.familyId)
      pure modified
    else pure modified

/-- `tenantId` is the user's, `requestTenant` the slug the middleware resolved. -/
structure LoginArgs where
  userId : String
  username : String
  role : String
  tenantId : Option String
  requestTenant : Option String := none
  ipAddress : String
  userAgent : String
  draw : Draw
  sessionId : String
  accessId : String

def LoginArgs.boundTenant (a : LoginArgs) : Option String :=
  (present a.tenantId).or a.requestTenant

def createSession (service : Service) (a : LoginArgs) (refreshTokenFamily : String) :
    Process AuthStore AuthOp (Except AuthError SessionDoc) := do
  let doc : SessionDoc := {
    sessionId := a.sessionId
    userId := a.userId
    username := a.username
    tenantId := a.tenantId
    createdAt := a.draw.now
    lastActiveAt := a.draw.now
    expiresAt := a.draw.now + days service.sessionMaxLifetimeDays
    ipAddress := a.ipAddress
    userAgent := a.userAgent
    isActive := true
    revokedAt := none
    revokedReason := none
    refreshTokenFamily := refreshTokenFamily }
  let inserted ← .atomic .insertSession (insertSession doc)
  if inserted then pure (.ok doc) else pure (.error (.duplicateKey a.sessionId))

def startSession (service : Service) (a : LoginArgs)
    (created : Except AuthError (String × String)) :
    Process AuthStore AuthOp (Except AuthError TokenPair) :=
  match created with
  | .error e => pure (.error e)
  | .ok (refreshToken, familyId) => do
    let session ← createSession service a familyId
    match session with
    | .error e => pure (.error e)
    | .ok session =>
      pure (.ok ⟨createAccessToken service a.draw.now a.accessId a.username a.role
        (some session.sessionId) a.boundTenant, refreshToken⟩)

/-- The part of `_issue_tokens_with_session` that creates the tokens. -/
def issueTokensWithSession (service : Service) (a : LoginArgs) :
    Process AuthStore AuthOp (Except AuthError TokenPair) := do
  let created ← createRefreshToken service a.draw a.username a.role none
  startSession service a created

end Sentora.Auth
