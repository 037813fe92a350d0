import Sentora.Auth.Accounts

/-!
# Logins

The four endpoints of `domains/auth/router.py` that end in
`_issue_tokens_with_session`, with `authenticate_user` and the provisioning of
`domains/auth/sso_provisioning.py`, as processes over one database.  An exception
ends a process; what `secrets` draws is an argument.
-/

namespace Sentora.Auth.Logins

open Lib
open Process (orThrow throwIf)

/-- The collections the flows use.  Of `system_config` it is the flag
`first_user_claimed`, of a pending state its `code_verifier`. -/
structure State where
  users : List UserDoc
  auth : AuthStore
  firstUserClaimed : Bool
  oidcPendingStates : List (String × Option String)
  samlTokenExchange : List (String × TokenPair)

def State.setAuth (auth : AuthStore) (s : State) : State := { s with auth := auth }

def State.updateUsers (username : String) (update : UserDoc → UserDoc) (s : State) : State :=
  { s with users := updateDoc username update s.users }

/-- The settings and the packages: bcrypt and `pyotp`, whose checks may raise, the
decryption and `str.lower`. -/
structure App where
  service : Service
  decrypt : Decrypt
  verifyPassword : String → String → Option Bool
  dummyBcryptHash : String
  verifyTotp : Nat → String → String → Option Bool
  lower : String → String
  accountLockoutThreshold : Nat
  accountLockoutDurationMinutes : Nat
  isOnprem : Bool
  oidcEnabled : Bool
  oidcDefaultRole : String
  samlEnabled : Bool
  samlAvailable : Bool
  samlDefaultRole : String

/-- What a request brings besides its payload: whether its address is over the
limit, the times at which the clock is read, and what issuing tokens draws. -/
structure Client where
  limited : Bool
  checkedAt : Nat
  lockedAt : Nat
  verifiedAt : Nat
  requestTenant : Option String := none
  ipAddress : String
  userAgent : String
  draw : Draw
  sessionId : String
  accessId : String

inductive Op where
  | findUser | countFailure | lockAccount | clearFailures | activateTotp
  | consumeState | findSubject | findEmail | linkSubject | claimFirstUser | insertUser
  | storeExchange
  | auth (op : AuthOp)
deriving DecidableEq

inductive Failure where
  | http (e : HttpError)
  | requiresTotp
  | unreadable (e : DocError)
  | raised
  | duplicateKey
  | auth (e : AuthError)

abbrev Login := ExceptT Failure (Process State Op)

def atomic {α : Type} (op : Op) (f : State → State × α) : Login α :=
  liftM (Process.atomic op f : Process State Op α)

def lookUp {α : Type} (op : Op) (f : State → α) : Login α := atomic op fun s => (s, f s)

def write (op : Op) (f : State → State) : Login Unit := atomic op fun s => (f s, ())

def httpError (statusCode : Nat) (detail : String) : Failure := .http ⟨statusCode, detail⟩

/-- `RateLimiter.check`. -/
def checkLimit (c : Client) (maxRequests window : Nat) : Login Unit :=
  throwIf c.limited (httpError 429 ("Rate limit exceeded — max " ++ toString maxRequests ++
    " requests per " ++ toString window ++ "s"))

def passwordMatches (app : App) (password hashed : String) : Login Bool :=
  if hashed = "" then pure false else orThrow .raised (app.verifyPassword password hashed)

def toUser (app : App) (doc : UserDoc) : Login User :=
  ofExcept ((docToUser app.decrypt doc).mapError .unreadable)

def getUserByUsername (app : App) (username : String) : Login (Option User) := do
  let found ← lookUp .findUser fun s => findDoc username s.users
  match found with
  | none => pure none
  | some doc => some <$> toUser app doc

def isLocked (now : Nat) (doc : UserDoc) : Bool := doc.lockedUntil.any fun t => now < t

/-- The update adds one to the count, and answers with the count after it. -/
def incrementFailures (username : String) (s : State) : State × Nat :=
  let s' := s.updateUsers username fun d =>
    { d with failedLoginAttempts := some (d.failedLoginAttempts.getD 0 + 1) }
  (s', ((findDoc username s'.users).bind UserDoc.failedLoginAttempts).getD 1)

def recordFailure (app : App) (lockedAt : Nat) (username : String) : Login Unit := do
  let newCount ← atomic .countFailure (incrementFailures username)
  if app.accountLockoutThreshold ≤ newCount then
    let lockedUntil := lockedAt + minutes app.accountLockoutDurationMinutes
    write .lockAccount (State.updateUsers username fun d =>
      { d with lockedUntil := some lockedUntil })
  else pure ()

def clearFailures (username : String) (doc : UserDoc) : Login Unit :=
  if 0 < doc.failedLoginAttempts.getD 0 then
    write .clearFailures (State.updateUsers username fun d =>
      { d with failedLoginAttempts := some 0, lockedUntil := none })
  else pure ()

def authenticateUser (app : App) (c : Client) (username password : String) :
    Login (Option User) := do
  let found ← lookUp .findUser fun s => findDoc username s.users
  match found with
  | none => do
    let _timing ← orThrow .raised (app.verifyPassword password app.dummyBcryptHash)
    pure none
  | some doc =>
    if isLocked c.checkedAt doc then do
      let _timing ← orThrow .raised (app.verifyPassword password app.dummyBcryptHash)
      pure none
    else do
      let correct ← passwordMatches app password (doc.hashedPassword.getD "")
      if correct then do
        clearFailures username doc
        some <$> toUser app doc
      else do
        recordFailure app c.lockedAt username
        pure none

structure SsoClaims where
  sub : Option String := none
  email : Option String := none
  emailVerified : Bool := false
  name : Option String := none
  preferredUsername : Option String := none

inductive Provider where
  | oidcSubject | samlSubject

def Provider.subject : Provider → UserDoc → Option String
  | oidcSubject, d => d.oidcSubject
  | samlSubject, d => d.samlSubject

def Provider.setSubject (value : String) : Provider → UserDoc → UserDoc
  | oidcSubject, d => { d with oidcSubject := some value }
  | samlSubject, d => { d with samlSubject := some value }

def Provider.defaultRole (app : App) : Provider → String
  | oidcSubject => app.oidcDefaultRole
  | samlSubject => app.samlDefaultRole

/-- What a provisioning draws: the identifier of a new document and the random
parts of usernames. -/
structure SsoDraw where
  id : String
  derived : String
  unique : String
  retry : Nat → String
  last : String

/-- `text.split("@")[0]`. -/
def localPart (text : String) : String := String.ofList (text.toList.takeWhile (· ≠ '@'))

def dotted (text : String) : String :=
  String.ofList (text.toList.map fun ch => if ch = ' ' then '.' else ch)

def deriveUsername (app : App) (draw : SsoDraw) (claims : SsoClaims) : String :=
  match (present claims.preferredUsername).bind fun v => present (some (localPart v)) with
  | some name => name
  | none =>
    match (present claims.email).bind fun v => present (some (localPart v)) with
    | some name => name
    | none =>
      match present claims.name with
      | some displayName => dotted (app.lower displayName)
      | none =>
        match present claims.sub with
        | some sub => "sso_" ++ String.ofList (sub.toList.take 12)
        | none => "sso_" ++ draw.derived

/-- The loop of `_ensure_unique_username` from its last `n` look-ups on. -/
def uniqueUsernameFrom (base random : String) : Nat → String → Login String
  | 0, _ => pure ("sso_" ++ random)
  | n + 1, username => do
    let taken ← lookUp .findUser fun s => (findDoc username s.users).isSome
    if taken then uniqueUsernameFrom base random n (base ++ toString (100 - n))
    else pure username

def ensureUniqueUsername (draw : SsoDraw) (base : String) : Login String :=
  uniqueUsernameFrom base draw.unique 100 base

/-- The upsert takes the flag, unless it is taken. -/
def claimFirstUser (app : App) : Login UserRole := do
  let isFirstUser ← atomic .claimFirstUser fun s =>
    ({ s with firstUserClaimed := true }, !s.firstUserClaimed)
  pure (if isFirstUser then (if app.isOnprem then .admin else .superAdmin) else .viewer)

def ssoRole (app : App) (provider : Provider) (firstUserRole : UserRole) : UserRole :=
  if firstUserRole ≠ .viewer then firstUserRole
  else (UserRole.ofValue (provider.defaultRole app)).getD .viewer

/-- The unique indexes of the users, of which those on the subjects are sparse. -/
def clashes (doc d : UserDoc) : Bool :=
  d.username == doc.username || d.email == doc.email ||
    (doc.oidcSubject.isSome && d.oidcSubject == doc.oidcSubject) ||
    (doc.samlSubject.isSome && d.samlSubject == doc.samlSubject)

def insertUser (doc : UserDoc) (s : State) : State × Bool :=
  if s.users.any (clashes doc) then (s, false) else ({ s with users := s.users ++ [doc] }, true)

def newUserDoc (provider : Provider) (value : String) (claims : SsoClaims) (role : UserRole)
    (draw : SsoDraw) (username : String) : UserDoc :=
  provider.setSubject value {
    id := draw.id
    username := username
    email := (present claims.email).getD (username ++ "@sso.local")
    hashedPassword := some ""
    role := some role.value
    disabled := some false
    totpSecret := none
    totpEnabled := some false }

/-- The retries under a new username, and the last attempt under a random one. -/
def insertNewUser (newDoc : String → UserDoc) (draw : SsoDraw) : Nat → String → Login UserDoc
  | 0, _ => do
    let doc := newDoc ("sso_" ++ draw.last)
    let inserted ← atomic .insertUser (insertUser doc)
    if inserted then pure doc else throw .duplicateKey
  | attempts + 1, username => do
    let doc := newDoc username
    let inserted ← atomic .insertUser (insertUser doc)
    if inserted then pure doc
    else insertNewUser newDoc draw attempts (username ++ "_" ++ draw.retry attempts)

def newUser (role : UserRole) (doc : UserDoc) : User where
  id := doc.id
  username := doc.username
  email := doc.email
  role := role
  disabled := false
  status := .active
  hashedPassword := ""
  totpSecret := none
  totpEnabled := false
  oidcSubject := doc.oidcSubject
  samlSubject := doc.samlSubject
  tenantId := none

def createSsoUser (app : App) (draw : SsoDraw) (claims : SsoClaims) (provider : Provider)
    (value : String) : Login User := do
  let username ← ensureUniqueUsername draw (deriveUsername app draw claims)
  let firstUserRole ← claimFirstUser app
  let role := ssoRole app provider firstUserRole
  let doc ← insertNewUser (newUserDoc provider value claims role draw) draw 5 username
  pure (newUser role doc)

def linkSubject (provider : Provider) (value : String) (doc : UserDoc) (s : State) : State :=
  { s with users := updateFirst (fun d => d.id == doc.id) (provider.setSubject value) s.users }

def findByEmail (claims : SsoClaims) : Login (Option UserDoc) :=
  match present claims.email with
  | some email =>
    if claims.emailVerified then
      lookUp .findEmail fun s => s.users.find? fun d => d.email == email
    else pure none
  | none => pure none

def provisionSsoUser (app : App) (draw : SsoDraw) (claims : SsoClaims) (provider : Provider)
    (value : String) : Login User := do
  let found ← lookUp .findSubject fun s => s.users.find? fun d => provider.subject d == some value
  match found with
  | some doc => toUser app doc
  | none => do
    let matched ← findByEmail claims
    match matched with
    | some doc =>
      -- an account that has a subject of the provider keeps it
      if present (provider.subject doc) = none then do
        write .linkSubject (linkSubject provider value doc)
        toUser app (provider.setSubject value doc)
      else createSsoUser app draw claims provider value
    | none => createSsoUser app draw claims provider value

def Client.loginArgs (c : Client) (user : User) : LoginArgs where
  userId := user.id
  username := user.username
  role := user.role.value
  tenantId := user.tenantId
  requestTenant := c.requestTenant
  ipAddress := c.ipAddress
  userAgent := c.userAgent
  draw := c.draw
  sessionId := c.sessionId
  accessId := c.accessId

def tokensFor (app : App) (c : Client) (user : User) :
    Process State Op (Except AuthError TokenPair) :=
  (issueTokensWithSession app.service (c.loginArgs user)).zoom State.auth State.setAuth .auth

def issueTokens (app : App) (c : Client) (user : User) : Login TokenPair := do
  let issued ← liftM (tokensFor app c user)
  ofExcept (issued.mapError .auth)

def refusedStatuses : List AccountStatus := [.suspended, .deactivated, .deleted]

/-- The check of the account that three of the endpoints make. -/
def isRefused (user : User) : Bool := user.disabled || user.status ∈ refusedStatuses

structure LoginRequest where
  username : String
  password : String
  totpCode : Option String

def blockedDetail (status : AccountStatus) : String :=
  if status = .suspended then "Account is suspended — contact your administrator"
  else if status = .invited then "Account has not been activated — check your invitation"
  else "Account is disabled"

def totpMatches (app : App) (c : Client) (user : User) (code : String) : Login Bool :=
  match present user.totpSecret with
  | none => pure false
  | some secret => orThrow .raised (app.verifyTotp c.verifiedAt secret code)

def requireTotp (app : App) (c : Client) (user : User) (totpCode : Option String) : Login Unit :=
  if user.totpEnabled then do
    let code ← orThrow .requiresTotp (present totpCode)
    let valid ← totpMatches app c user code
    throwIf (!valid) (httpError 401 "Invalid TOTP code")
  else pure ()

def login (app : App) (c : Client) (payload : LoginRequest) : Login TokenPair := do
  let found ← authenticateUser app c payload.username payload.password
  let user ← orThrow (httpError 401 "Incorrect username or password") found
  throwIf (isRefused user) (httpError 403 (blockedDetail user.status))
  requireTotp app c user payload.totpCode
  issueTokens app c user

structure TotpVerifySetupRequest where
  username : String
  password : String
  code : String

def verifyTotpSetup (app : App) (c : Client) (payload : TotpVerifySetupRequest) :
    Login TokenPair := do
  checkLimit c 5 60
  let found ← getUserByUsername app payload.username
  let user ← orThrow (httpError 404 "User not found") found
  let correct ← passwordMatches app payload.password user.hashedPassword
  throwIf (!correct) (httpError 401 "Invalid password")
  throwIf user.totpEnabled (httpError 409 "TOTP is already enabled for this account")
  let secret ← orThrow (httpError 400 "No TOTP secret configured — re-register")
    (present user.totpSecret)
  let valid ← orThrow .raised (app.verifyTotp c.verifiedAt secret payload.code)
  throwIf (!valid) (httpError 401 "Invalid TOTP code — please try again")
  write .activateTotp (State.updateUsers payload.username fun d =>
    { d with totpEnabled := some true })
  issueTokens app c user

/-- `exchange` is what `exchange_code` answers for a `code_verifier`. -/
structure OidcCallback where
  state : String
  error : Option String := none
  errorDescription : Option String := none
  exchange : Option String → Except String SsoClaims
  draw : SsoDraw

/-- `find_one_and_delete`, with the `code_verifier` of the document. -/
def validateState (state : String) (s : State) : State × Option (Option String) :=
  ({ s with oidcPendingStates := s.oidcPendingStates.eraseP fun e => e.1 == state },
    (s.oidcPendingStates.find? fun e => e.1 == state).map Prod.snd)

def oidcCallback (app : App) (c : Client) (q : OidcCallback) : Login TokenPair := do
  throwIf (!app.oidcEnabled) (httpError 404 "OIDC authentication is not enabled")
  checkLimit c 20 60
  match present q.error with
  | some error =>
    throw (httpError 401 ("OIDC authentication failed: " ++
      (present q.errorDescription).getD error))
  | none => do
    let stateDoc ← atomic .consumeState (validateState q.state)
    let codeVerifier ← orThrow (httpError 400 "Invalid or expired OIDC state parameter") stateDoc
    let claims ← ofExcept ((q.exchange codeVerifier).mapError (httpError 401))
    let sub ← orThrow .raised claims.sub
    let user ← provisionSsoUser app q.draw claims .oidcSubject sub
    throwIf (isRefused user) (httpError 403 "Account is disabled")
    issueTokens app c user

/-- `response` is what `process_response` answers, `nonce` what the endpoint draws. -/
structure SamlCallback where
  response : Except String SsoClaims
  draw : SsoDraw
  nonce : String

/-- `insert_one`, where the nonce is the `_id`. -/
def storeTokenExchange (nonce : String) (pair : TokenPair) (s : State) : State × Bool :=
  if s.samlTokenExchange.any (fun e => e.1 == nonce) then (s, false)
  else ({ s with samlTokenExchange := s.samlTokenExchange ++ [(nonce, pair)] }, true)

def samlCallback (app : App) (c : Client) (q : SamlCallback) : Login String := do
  throwIf (!app.samlEnabled) (httpError 404 "SAML authentication is not enabled")
  throwIf (!app.samlAvailable) (httpError 501 "SAML support requires python3-saml")
  checkLimit c 20 60
  let claims ← ofExcept
    (q.response.mapError fun exc => httpError 401 ("SAML authentication failed: " ++ exc))
  let sub ← orThrow (httpError 401 "SAML response missing NameID (subject)") (present claims.sub)
  let user ← provisionSsoUser app q.draw claims .samlSubject sub
  throwIf (isRefused user) (httpError 403 "Account is disabled")
  let pair ← issueTokens app c user
  let stored ← atomic .storeExchange (storeTokenExchange q.nonce pair)
  throwIf (!stored) .duplicateKey
  pure ("/auth/saml/complete?saml_nonce=" ++ q.nonce)

inductive Flow where
  | login (payload : LoginRequest)
  | verifyTotpSetup (payload : TotpVerifySetupRequest)
  | oidcCallback (q : OidcCallback)
  | samlCallback (q : SamlCallback)

/-- The SAML flow hands its pair out behind a redirect. -/
inductive Reply where
  | tokens (pair : TokenPair)
  | redirect (url : String)

def Flow.handle (app : App) (c : Client) : Flow → Login Reply
  | .login payload => Reply.tokens <$> Logins.login app c payload
  | .verifyTotpSetup payload => Reply.tokens <$> Logins.verifyTotpSetup app c payload
  | .oidcCallback q => Reply.tokens <$> Logins.oidcCallback app c q
  | .samlCallback q => Reply.redirect <$> Logins.samlCallback app c q

end Sentora.Auth.Logins
