import Sentora.Auth.Lifetime
import Sentora.Tenancy.Binding

/-!
# Logouts across databases

Whether a logout reaches the database that holds the tokens of the session.

The paths of login and refresh are exempt, so their handlers work on the default
database; those of every logout are not, and theirs work on the database of the
tenant the request names.
-/

namespace Sentora.Tenancy

open Auth Lib Process

/-- The session of the family, revoked by `logout`. -/
def endSessionOf (familyId : String) (now : Nat) : Process AuthStore AuthOp Unit := do
  let sessionId ← .read (.findSession familyId) (activeSessionOf familyId)
  match sessionId with
  | none => pure ()
  | some sessionId => do
    let _revoked ← revokeSession sessionId "logout" now
    pure ()

/-- The part of `logout` before its tokens are deleted.  `decodeUnchecked`
verifies neither the expiry nor the issuer. -/
def endSessionOfToken (decodeUnchecked : String → Except String Claims) (token : String)
    (now : Nat) : Process AuthStore AuthOp Unit :=
  match decodeUnchecked token with
  | .error _ => pure ()
  | .ok payload =>
    match present payload.fam with
    | none => pure ()
    | some familyId => endSessionOf familyId now

def logout (service : Service) (decodeUnchecked : String → Except String Claims) (token : String)
    (now : Nat) : Process AuthStore AuthOp Unit := do
  endSessionOfToken decodeUnchecked token now
  let _deleted ← revokeFamily service token
  pure ()

def logoutAll (sub : String) (now : Nat) : Process AuthStore AuthOp Unit := do
  let _deleted ← revokeUserTokens sub
  let _revoked ← revokeAllUserSessions sub "logout_all" none now
  pure ()

def revokeSingleSession (sub sessionId : String) (now : Nat) :
    Process AuthStore AuthOp (Except HttpError Unit) := do
  let session ← .read .listSessions fun s => s.sessions.find? fun d => d.sessionId == sessionId
  match session with
  | none => pure (.error ⟨404, "Session not found"⟩)
  | some d =>
    if d.username ≠ sub then pure (.error ⟨404, "Session not found"⟩)
    else do
      let revoked ← revokeSession sessionId "user_revoked" now
      if revoked then pure (.ok ())
      else pure (.error ⟨404, "Session not found or already revoked"⟩)

def adminRevokeSessions (username : String) (now : Nat) : Process AuthStore AuthOp Unit := do
  let _revoked ← revokeAllUserSessions username "admin_revoked" none now
  let _deleted ← revokeUserTokens username
  pure ()

inductive Endpoint where
  | login (a : LoginArgs)
  | refresh (a : RotateArgs)
  | logout (token : String)
  | logoutAll
  | revokeSession (sessionId : String)
  | revokeOtherSessions
  | adminRevokeSessions (username : String)

def Endpoint.path : Endpoint → String
  | .login _ => "/api/v1/auth/login"
  | .refresh _ => "/api/v1/auth/refresh"
  | .logout _ => "/api/v1/auth/logout"
  | .logoutAll => "/api/v1/auth/logout/all"
  | .revokeSession sessionId => "/api/v1/auth/sessions/" ++ sessionId
  | .revokeOtherSessions => "/api/v1/auth/sessions"
  | .adminRevokeSessions _ => "/api/v1/auth/admin/sessions"

structure Deployment where
  service : Service
  decodeUnchecked : String → Except String Claims
  bearer : Bearer
  decode : Decoder
  settings : Settings

structure HttpCall where
  endpoint : Endpoint
  authorization : Option String := none
  tenantHeader : Option String := none
  host : Option String := none
  now : Nat
  caches : RevocationCaches

def HttpCall.request (call : HttpCall) : Request :=
  ⟨call.endpoint.path, call.authorization, call.tenantHeader, call.host⟩

/-- The user the dependencies of the endpoint accept, where it has any. -/
def authorize (d : Deployment) (call : HttpCall) : Except HttpError (Option TokenPayload) :=
  match call.endpoint with
  | .login _ | .refresh _ | .logout _ => .ok none
  | .logoutAll | .revokeSession _ | .revokeOtherSessions =>
    match getCurrentUser d.bearer d.decode call.caches call.now call.authorization with
    | .error e => .error e
    | .ok payload => .ok (some payload)
  | .adminRevokeSessions _ =>
    match getCurrentUser d.bearer d.decode call.caches call.now call.authorization with
    | .error e => .error e
    | .ok payload =>
      match requireRole ["admin"] payload with
      | .error e => .error e
      | .ok payload => .ok (some payload)

def pairReply (r : Except AuthError TokenPair) : Except HttpError (Option TokenPair) :=
  match r with
  | .ok p => .ok (some p)
  | .error (.valueError message) => .error ⟨401, message⟩
  | .error (.duplicateKey _) => .error ⟨500, "Internal Server Error"⟩

def handler (d : Deployment) (call : HttpCall) (tenant : Option Tenant)
    (user : Option TokenPayload) :
    Process AuthStore AuthOp (Except HttpError (Option TokenPair)) :=
  let sub := (user.map TokenPayload.sub).getD ""
  match call.endpoint with
  | .login a => do
    let r ← issueTokensWithSession d.service { a with requestTenant := tenant.map Tenant.slug }
    pure (pairReply r)
  | .refresh a => do
    let r ← rotateRefreshToken d.service { a with sessionId := none }
    pure (pairReply r)
  | .logout token => do
    logout d.service d.decodeUnchecked token call.now
    pure (.ok none)
  | .logoutAll => do
    logoutAll sub call.now
    pure (.ok none)
  | .revokeSession sessionId => do
    let r ← revokeSingleSession sub sessionId call.now
    match r with
    | .error e => pure (.error e)
    | .ok _ => pure (.ok none)
  | .revokeOtherSessions => do
    let _revoked ← revokeAllUserSessions sub "user_revoked_others" (user.bind TokenPayload.sid)
      call.now
    pure (.ok none)
  | .adminRevokeSessions username => do
    adminRevokeSessions username call.now
    pure (.ok none)

structure World where
  stores : String → AuthStore
  registry : Registry
  cache : TenantCache

/-- The tenant and the database a request is given, by the middleware and
`get_tenant_db`. -/
def route (d : Deployment) (call : HttpCall) (w : World) :
    Except HttpError (Option Tenant × String) :=
  match (dispatch d.decode d.settings w.registry call.now w.cache call.request).2 with
  | .respond statusCode detail => .error ⟨statusCode, detail⟩
  | .passed tenant dbName =>
    match getTenantDb d.settings dbName with
    | .error detail => .error ⟨503, detail⟩
    | .ok db => .ok (tenant, db)

def resolved (d : Deployment) (call : HttpCall) (w : World) : World :=
  { w with cache := (dispatch d.decode d.settings w.registry call.now w.cache call.request).1 }

def serve (d : Deployment) (call : HttpCall) (w : World) :
    World × Except HttpError (Option TokenPair) :=
  match route d call w with
  | .error e => (resolved d call w, .error e)
  | .ok (tenant, db) =>
    match authorize d call with
    | .error e => (resolved d call w, .error e)
    | .ok user =>
      let r := (handler d call tenant user).run (w.stores db)
      ({ resolved d call w with stores := Function.update w.stores db r.1 }, r.2)

/-- A request is served, or the tenants change. -/
inductive Event where
  | call (c : HttpCall)
  | tenants (registry : Registry)

def Event.apply (d : Deployment) (w : World) : Event → World
  | .call c => (serve d c w).1
  | .tenants registry => { w with registry := registry }

def history (d : Deployment) (events : List Event) (w : World) : World :=
  events.foldl (Event.apply d) w

section Session

variable (d : Deployment) (famOf : String → String) (login : LoginArgs)

/-- The token of a refresh was signed for its family and names the user of the
login where the family is its; what other calls draw is new. -/
def Fair (call : HttpCall) : Prop :=
  match call.endpoint with
  | .refresh a =>
    ∀ c, checkRefreshToken d.service { a with sessionId := none } = .ok c →
      famOf c.tokenId = c.familyId ∧ famOf a.draw.tokenId = c.familyId ∧
        (c.familyId = login.draw.family → c.username = login.username)
  | .login a =>
    famOf a.draw.tokenId = a.draw.family ∧ a.draw.family ≠ login.draw.family ∧
      a.sessionId ≠ login.sessionId
  | _ => True

/-- The documents of the default database: a token of the family is of the user,
and the session is tied to the family. -/
abbrev Ours : AuthStore → Prop :=
  EachDoc
    (fun t => famOf t.tokenId = t.familyId ∧
      (t.familyId = login.draw.family → t.username = login.username))
    (Tied d.service login)

def Live (s : AuthStore) : Prop := Ours d famOf login s ∧ Covered login s

end Session

section Handlers

variable {d : Deployment} {call : HttpCall} {tenant : Option Tenant} {user : Option TokenPayload}
  {T : TokenDoc → Prop} {S : SessionDoc → Prop}

/-- What an endpoint inserts meets `T` and `S`. -/
def Inserts (d : Deployment) (T : TokenDoc → Prop) (S : SessionDoc → Prop) (call : HttpCall) :
    Prop :=
  match call.endpoint with
  | .login a =>
    T (drawnToken d.service a.draw a.username a.role a.draw.family) ∧
      S (drawnSession d.service a a.draw.family)
  | .refresh a =>
    ∀ c, checkRefreshToken d.service { a with sessionId := none } = .ok c →
      T (drawnToken d.service a.draw c.username c.role c.familyId)
  | _ => True

end Handlers

section Server

variable {d : Deployment} {call : HttpCall} {w : World}

theorem route_exempt (h : exempt call.endpoint.path = true) :
    route d call w =
      match getTenantDb d.settings (some d.settings.mongoDb) with
      | .error detail => .error ⟨503, detail⟩
      | .ok db => .ok (none, db) := by
  have hpath : exempt call.request.path = true := h
  unfold route
  rw [dispatch_exempt hpath]

theorem exempt_refresh {a : RotateArgs} (h : call.endpoint = .refresh a) :
    exempt call.endpoint.path = true := by
  rw [h]
  show exempt "/api/v1/auth/refresh" = true
  decide

end Server

section Kept

variable {d : Deployment} {famOf : String → String} {login : LoginArgs} {call : HttpCall}
  {tenant : Option Tenant} {user : Option TokenPayload} {s : AuthStore}

theorem Fair.inserts (h : Fair d famOf login call) :
    Inserts d (fun t => famOf t.tokenId = t.familyId ∧
      (t.familyId = login.draw.family → t.username = login.username)) (Tied d.service login)
      call := by
  unfold Fair at h
  unfold Inserts
  cases hend : call.endpoint with
  | refresh a =>
    rw [hend] at h
    exact fun c hc => ⟨(h c hc).2.1, (h c hc).2.2⟩
  | login a =>
    rw [hend] at h
    obtain ⟨hdraw, hfamily, hsession⟩ := h
    refine ⟨⟨hdraw, fun heq => absurd heq hfamily⟩, ?_, fun heq => absurd heq hsession,
      fun heq => absurd heq hsession⟩
    exact ⟨fun heq => absurd heq hsession, fun heq => absurd heq hfamily⟩
  | _ => trivial

variable (hf : login.draw.family ≠ "")

include hf

end Kept

structure Agree (d : Deployment) (w w' : World) : Prop where
  registry : w.registry = w'.registry
  cache : w.cache = w'.cache
  default : w.stores d.settings.mongoDb = w'.stores d.settings.mongoDb

section Agree

variable {d : Deployment} {call : HttpCall} {w w' : World}

theorem Agree.route (h : Agree d w w') : route d call w = route d call w' := by
  unfold Tenancy.route
  rw [h.registry, h.cache]

theorem serve_world (d : Deployment) (call : HttpCall) (w : World) :
    (serve d call w).1.registry = w.registry ∧
      (serve d call w).1.cache = (resolved d call w).cache := by
  unfold serve
  cases Tenancy.route d call w with
  | error e => exact ⟨rfl, rfl⟩
  | ok r =>
    dsimp only
    cases authorize d call with
    | error e => exact ⟨rfl, rfl⟩
    | ok user => exact ⟨rfl, rfl⟩

theorem Agree.serve (h : Agree d w w') : Agree d (serve d call w).1 (serve d call w').1 := by
  obtain ⟨hregistry, hcache⟩ := serve_world d call w
  obtain ⟨hregistry', hcache'⟩ := serve_world d call w'
  refine ⟨?_, ?_, ?_⟩
  · rw [hregistry, hregistry', h.registry]
  · rw [hcache, hcache']
    unfold resolved
    dsimp only
    rw [h.registry, h.cache]
  · unfold Tenancy.serve
    rw [← h.route]
    cases Tenancy.route d call w with
    | error e => exact h.default
    | ok r =>
      dsimp only
      cases authorize d call with
      | error e => exact h.default
      | ok user =>
        dsimp only
        by_cases hdb : d.settings.mongoDb = r.2
        · rw [← hdb, Function.update_self, Function.update_self, h.default]
        · rw [Function.update_of_ne hdb, Function.update_of_ne hdb, h.default]

theorem Agree.history (h : Agree d w w') (events : List Event) :
    Agree d (history d events w) (history d events w') := by
  induction events generalizing w w' with
  | nil => exact h
  | cons event events ih =>
    cases event with
    | call c => exact ih h.serve
    | tenants registry => exact ih ⟨rfl, h.cache, h.default⟩

theorem Agree.refresh (h : Agree d w w') {a : RotateArgs} (hend : call.endpoint = .refresh a) :
    (Tenancy.serve d call w).2 = (Tenancy.serve d call w').2 := by
  unfold Tenancy.serve
  rw [← h.route, route_exempt (exempt_refresh hend)]
  cases hdb : getTenantDb d.settings (some d.settings.mongoDb) with
  | error e => rfl
  | ok db =>
    dsimp only
    cases authorize d call with
    | error e => rfl
    | ok user =>
      dsimp only
      rw [getTenantDb_default hdb, h.default]

end Agree

section Logouts

variable {d : Deployment} {famOf : String → String} {login : LoginArgs} {call : HttpCall}
  {w : World}

end Logouts

section Sample

variable {mongoDb : String}

end Sample

end Sentora.Tenancy
