import Sentora.Auth.BlockedAccounts
import Sentora.Auth.Rotation

/-!
# Single use

The random texts of the SSO flows (`oidc.py`, `saml.py` and their endpoints in
`domains/auth/router.py`): the state of an OIDC login, the request of a SAML login, and the
nonce under which a SAML callback leaves its tokens.  Each is stored by one call and found by
one at most, in whatever order the calls take their steps and documents expire.
-/

namespace Sentora.Auth.SingleUse

open Lib Process
open Logins

structure SsoState where
  logins : State
  samlPendingRequests : List String

def SsoState.setLogins (logins : State) (s : SsoState) : SsoState := { s with logins := logins }

structure SsoApp extends Logins.App where
  oidcClientId : String
  oidcRedirectUri : String
  /-- The digest of a verifier, in Base64. -/
  codeChallenge : String → String

inductive SsoOp where
  | flow (op : Op)
  | storeState | storeRequest | consumeRequest | consumeExchange | expire

abbrev SsoLogin := ExceptT Logins.Failure (Process SsoState SsoOp)

def access {α : Type} (op : SsoOp) (f : SsoState → SsoState × α) : SsoLogin α :=
  liftM (Process.atomic op f : Process SsoState SsoOp α)

def inLogins {α : Type} (p : Login α) : SsoLogin α :=
  ExceptT.mk (p.run.zoom SsoState.logins SsoState.setLogins .flow)

/-- An exception with the text of a `ValueError`, or of another class. -/
def configurationError (detail : String → String) : Option String → Logins.Failure
  | some exc => httpError 500 (detail exc)
  | none => .raised

/-- `discovery` is the authorization endpoint, the other texts are drawn. -/
structure OidcLogin where
  discovery : Except (Option String) String
  state : String
  codeVerifier : String

structure AuthorizationUrl where
  endpoint : String
  params : List (String × String)

def storeState (state codeVerifier : String) (s : SsoState) : SsoState × Bool :=
  if s.logins.oidcPendingStates.any (fun e => e.1 == state) then (s, false)
  else (s.setLogins { s.logins with
    oidcPendingStates := s.logins.oidcPendingStates ++ [(state, some codeVerifier)] }, true)

/-- `oidc_login` with `get_authorization_url`. -/
def oidcLogin (app : SsoApp) (q : OidcLogin) : SsoLogin AuthorizationUrl := do
  throwIf (!app.oidcEnabled) (httpError 404 "OIDC authentication is not enabled")
  let endpoint ← ofExcept (q.discovery.mapError
    (configurationError fun _ => "OIDC configuration error — check server logs"))
  let stored ← access .storeState (storeState q.state q.codeVerifier)
  throwIf (!stored) .duplicateKey
  pure ⟨endpoint, [("response_type", "code"), ("client_id", app.oidcClientId),
    ("redirect_uri", app.oidcRedirectUri), ("scope", "openid email profile"), ("state", q.state),
    ("code_challenge", app.codeChallenge q.codeVerifier), ("code_challenge_method", "S256")]⟩

/-- `request` is the URL and the identifier of the request that `python3-saml` makes. -/
structure SamlLogin where
  request : Except (Option String) (String × String)

def storeRequest (requestId : String) (s : SsoState) : SsoState × Bool :=
  if s.samlPendingRequests.any (fun id => id == requestId) then (s, false)
  else ({ s with samlPendingRequests := s.samlPendingRequests ++ [requestId] }, true)

/-- `saml_login` with `get_auth_request_url`. -/
def samlLogin (app : SsoApp) (q : SamlLogin) : SsoLogin String := do
  throwIf (!app.samlEnabled) (httpError 404 "SAML authentication is not enabled")
  throwIf (!app.samlAvailable) (httpError 501
    "SAML support requires python3-saml — install it with: pip install python3-saml")
  let (url, requestId) ← ofExcept (q.request.mapError
    (configurationError fun exc => "SAML configuration error: " ++ exc))
  if requestId = "" then pure url
  else do
    let stored ← access .storeRequest (storeRequest requestId)
    throwIf (!stored) .duplicateKey
    pure url

/-- What `python3-saml` reads of a response that it accepts. -/
structure Assertion where
  inResponseTo : Option String
  nameId : Option String
  attributes : List (String × List String)

def Assertion.first (a : Assertion) (names : List String) : Option String :=
  names.findSome? fun name => (a.attributes.lookup name).bind List.head?

def claimsOf (app : SsoApp) (a : Assertion) : SsoClaims :=
  let nameId := a.nameId.getD ""
  let email := (a.first ["http://schemas.xmlsoap.org/ws/2005/05/identity/claims/emailaddress",
    "urn:oid:0.9.2342.19200300.100.1.3", "email", "Email", "mail"]).getD ""
  { sub := some nameId
    email := some (if email = "" && nameId.toList.contains '@' then nameId else email)
    emailVerified :=
      (a.first ["http://schemas.xmlsoap.org/ws/2005/05/identity/claims/emailverified",
        "urn:oid:1.3.6.1.4.1.5923.1.1.1.11", "emailVerified", "email_verified"]).any fun value =>
          ["true", "1", "yes"].contains (app.lower value)
    name := some ((a.first ["http://schemas.xmlsoap.org/ws/2005/05/identity/claims/name",
      "urn:oid:2.16.840.1.113730.3.1.241", "displayName", "name"]).getD "")
    preferredUsername := some ((a.first
      ["http://schemas.xmlsoap.org/ws/2005/05/identity/claims/upn",
        "urn:oid:0.9.2342.19200300.100.1.1", "preferred_username", "username",
        "uid"]).getD "") }

/-- `validated` is the assertion, or the text of a `ValueError`. -/
structure SamlAcs where
  validated : Except (Option String) Assertion
  draw : SsoDraw
  nonce : String

def consumeRequest (requestId : String) (s : SsoState) : SsoState × Option String :=
  ({ s with samlPendingRequests := s.samlPendingRequests.eraseP fun id => id == requestId },
    s.samlPendingRequests.find? fun id => id == requestId)

def processResponse (app : SsoApp) (q : SamlAcs) : SsoLogin (Except String SsoClaims) :=
  match q.validated with
  | .error none => throw .raised
  | .error (some exc) => pure (.error exc)
  | .ok assertion =>
    match present assertion.inResponseTo with
    | none => pure (.error
        "SAML response missing InResponseTo — unsolicited assertions are rejected")
    | some requestId => do
      let found ← access .consumeRequest (consumeRequest requestId)
      match found with
      | some _ => pure (.ok (claimsOf app assertion))
      | none => pure (.error
          ("SAML response with unknown or expired InResponseTo: " ++ requestId))

/-- A response is looked at behind the checks with which the callback begins. -/
def responseTo (app : SsoApp) (c : Client) (q : SamlAcs) : SsoLogin (Except String SsoClaims) :=
  if app.samlEnabled && app.samlAvailable && !c.limited then processResponse app q
  else pure (.error "")

def samlCallback (app : SsoApp) (c : Client) (q : SamlAcs) : SsoLogin String := do
  let response ← responseTo app c q
  inLogins (Logins.samlCallback app.toApp c ⟨response, q.draw, q.nonce⟩)

structure TokenExchange where
  limited : Bool
  nonce : String
  length : 1 ≤ nonce.length ∧ nonce.length ≤ 100

def consumeTokenExchange (nonce : String) (s : SsoState) : SsoState × Option (String × TokenPair) :=
  (s.setLogins { s.logins with
      samlTokenExchange := s.logins.samlTokenExchange.eraseP fun e => e.1 == nonce },
    s.logins.samlTokenExchange.find? fun e => e.1 == nonce)

def samlTokenExchange (q : TokenExchange) : SsoLogin TokenPair := do
  throwIf q.limited (httpError 429 "Rate limit exceeded — max 10 requests per 60s")
  let doc ← access .consumeExchange (consumeTokenExchange q.nonce)
  match doc with
  | none => throw (httpError 400 "Invalid or expired SAML exchange nonce")
  | some doc => pure doc.2

/-- The TTL indexes delete documents. -/
def expire (gone : String → Bool) (s : SsoState) : SsoState where
  logins := { s.logins with
    oidcPendingStates := s.logins.oidcPendingStates.filter fun e => !gone e.1
    samlTokenExchange := s.logins.samlTokenExchange.filter fun e => !gone e.1 }
  samlPendingRequests := s.samlPendingRequests.filter fun id => !gone id

inductive SsoCall where
  | oidcLogin (q : OidcLogin)
  | oidcCallback (c : Client) (q : OidcCallback)
  | samlLogin (q : SamlLogin)
  | samlCallback (c : Client) (q : SamlAcs)
  | samlTokenExchange (q : TokenExchange)
  | expire (gone : String → Bool)

inductive SsoReply where
  | authorization (url : AuthorizationUrl)
  | redirect (url : String)
  | tokens (pair : TokenPair)
  | expired

def handle (app : SsoApp) : SsoCall → SsoLogin SsoReply
  | .oidcLogin q => SsoReply.authorization <$> oidcLogin app q
  | .oidcCallback c q => SsoReply.tokens <$> inLogins (Logins.oidcCallback app.toApp c q)
  | .samlLogin q => SsoReply.redirect <$> samlLogin app q
  | .samlCallback c q => SsoReply.redirect <$> samlCallback app c q
  | .samlTokenExchange q => SsoReply.tokens <$> samlTokenExchange q
  | .expire gone => access .expire fun s => (expire gone s, .expired)

inductive Ticket where
  | state (state : String)
  | request (requestId : String)
  | nonce (nonce : String)
deriving DecidableEq

def SsoCall.draws : SsoCall → Option Ticket
  | .oidcLogin q => some (.state q.state)
  | .samlLogin q => (present (q.request.toOption.map Prod.snd)).map .request
  | .samlCallback _ q => some (.nonce q.nonce)
  | _ => none

def SsoCall.uses : SsoCall → Option Ticket
  | .oidcCallback _ q => some (.state q.state)
  | .samlCallback _ q => (q.validated.toOption.bind fun a => present a.inResponseTo).map .request
  | .samlTokenExchange q => some (.nonce q.nonce)
  | _ => none

/-- Nothing is drawn twice. -/
def DrawnOnce (calls : Nat → SsoCall) : Prop :=
  ∀ i j t, (calls i).draws = some t → (calls j).draws = some t → i = j

/-- The tokens that are issued for a user. -/
def issued (app : SsoApp) (c : Client) (user : User) : Except AuthError TokenPair :=
  ((issueTokensWithSession app.service (c.loginArgs user)).run .empty).2

def Requested (calls : Nat → SsoCall) (requestId : String) : Prop :=
  ∃ j q url, calls j = .samlLogin q ∧ q.request = .ok (url, requestId)

/-- A reply to a call rests on a call that drew what this one uses: the code is exchanged with
the verifier of that login, and the tokens are those that were issued there. -/
def Backed (app : SsoApp) (calls : Nat → SsoCall) : SsoCall → SsoReply → Prop
  | .oidcCallback _ q, _ => ∃ j q', calls j = .oidcLogin q' ∧ q'.state = q.state ∧
      ∃ claims, q.exchange (some q'.codeVerifier) = .ok claims
  | .samlCallback _ q, _ => ∃ a requestId, q.validated = .ok a ∧
      present a.inResponseTo = some requestId ∧ Requested calls requestId
  | .samlTokenExchange q, reply => ∃ j c q' user pair, calls j = .samlCallback c q' ∧
      q'.nonce = q.nonce ∧ issued app c user = .ok pair ∧ reply = .tokens pair
  | _, _ => True

def held {α : Type} (ticketOf : α → Ticket) (t : Ticket) (l : List α) : Nat :=
  l.countP fun e => ticketOf e = t

def flowStock (t : Ticket) (s : State) : Nat :=
  held (fun e => .state e.1) t s.oidcPendingStates +
    held (fun e => .nonce e.1) t s.samlTokenExchange

def ssoStock (t : Ticket) (s : SsoState) : Nat :=
  flowStock t s.logins + held .request t s.samlPendingRequests

/-- What the documents say is what the calls that stored them drew. -/
structure Vouched (app : SsoApp) (calls : Nat → SsoCall) (s : State) : Prop where
  states : ∀ e ∈ s.oidcPendingStates, ∃ j q, calls j = .oidcLogin q ∧
    e = (q.state, some q.codeVerifier)
  exchange : ∀ e ∈ s.samlTokenExchange, ∃ j c q user, calls j = .samlCallback c q ∧
    q.nonce = e.1 ∧ issued app c user = .ok e.2

def flowLedger (app : SsoApp) (calls : Nat → SsoCall) (t : Ticket) : Ledger State Op where
  inv := Vouched app calls
  allows _ _ := True
  stock := flowStock t
  rel := (· ≤ ·)
  trans := Nat.le_trans
  add c h := Nat.add_le_add_right h c

def ssoLedger (app : SsoApp) (calls : Nat → SsoCall) (t : Ticket) : Ledger SsoState SsoOp where
  inv s := Vouched app calls s.logins ∧ ∀ id ∈ s.samlPendingRequests, Requested calls id
  allows _ _ := True
  stock := ssoStock t
  rel := (· ≤ ·)
  trans := Nat.le_trans
  add c h := Nat.add_le_add_right h c

def weight (t : Ticket) (o : Option Ticket) : Nat := if o = some t then 1 else 0

section Frame

variable {app : Logins.App} {α : Type}

def Untouched (u : State → State) : Prop :=
  ∀ s, (u s).oidcPendingStates = s.oidcPendingStates ∧ (u s).samlTokenExchange = s.samlTokenExchange

theorem updates_access {op : Op} {f : State → State × α} (h : Untouched fun s => (f s).1) :
    Updates Untouched (Logins.atomic op f).run :=
  ⟨h, fun _ => trivial⟩

theorem untouched_insertUser (doc : UserDoc) : Untouched fun s => (insertUser doc s).1 := by
  intro s
  dsimp only
  unfold insertUser
  split
  · exact ⟨rfl, rfl⟩
  · exact ⟨rfl, rfl⟩

theorem updates_uniqueUsernameFrom (base random : String) (k : Nat) (username : String) :
    Updates Untouched (uniqueUsernameFrom base random k username).run := by
  induction k generalizing username with
  | zero => trivial
  | succ k ih =>
    refine Updates.except_bind (updates_access fun _ => ⟨rfl, rfl⟩) fun taken => ?_
    cases taken with
    | true => exact ih _
    | false => trivial

theorem updates_insertNewUser (newDoc : String → UserDoc) (draw : SsoDraw) (attempts : Nat)
    (username : String) : Updates Untouched (insertNewUser newDoc draw attempts username).run := by
  induction attempts generalizing username with
  | zero =>
    refine Updates.except_bind (updates_access (untouched_insertUser _)) fun inserted => ?_
    cases inserted with
    | true => trivial
    | false => trivial
  | succ attempts ih =>
    refine Updates.except_bind (updates_access (untouched_insertUser _)) fun inserted => ?_
    cases inserted with
    | true => trivial
    | false => exact ih _

theorem updates_createSsoUser (draw : SsoDraw) (claims : SsoClaims) (provider : Provider)
    (value : String) : Updates Untouched (createSsoUser app draw claims provider value).run := by
  refine Updates.except_bind (updates_uniqueUsernameFrom ..) fun username => ?_
  refine Updates.except_bind ?_ fun role => ?_
  · exact Updates.except_bind (updates_access fun _ => ⟨rfl, rfl⟩) fun _ => trivial
  · exact Updates.except_bind (updates_insertNewUser ..) fun _ => trivial

theorem updates_provisionSsoUser (draw : SsoDraw) (claims : SsoClaims) (provider : Provider)
    (value : String) : Updates Untouched (provisionSsoUser app draw claims provider value).run := by
  refine Updates.except_bind (updates_access fun _ => ⟨rfl, rfl⟩) fun found => ?_
  cases found with
  | some doc => exact updates_ofExcept _
  | none =>
    refine Updates.except_bind ?_ fun matched => ?_
    · unfold findByEmail
      cases present claims.email with
      | none => trivial
      | some email =>
        dsimp only
        split
        · exact updates_access fun _ => ⟨rfl, rfl⟩
        · trivial
    · cases matched with
      | none => exact updates_createSsoUser ..
      | some doc =>
        dsimp only
        split
        · refine Updates.except_bind (updates_access fun _ => ⟨rfl, rfl⟩) fun _ => ?_
          exact updates_ofExcept _
        · exact updates_createSsoUser ..

end Frame

section Steps

variable {app : SsoApp} {calls : Nat → SsoCall} {t : Ticket} {n : Nat} {α : Type}

theorem pays_of_untouched {p : Process State Op α} (hp : Updates Untouched p) :
    Pays (flowLedger app calls t) (fun m _ => m = n) n p := by
  refine hp.pays (fun u hu s hs => ?_) n
  obtain ⟨hstates, hexchange⟩ := hu s
  refine ⟨⟨?_, ?_⟩, ?_⟩
  · rw [hstates]
    exact hs.states
  · rw [hexchange]
    exact hs.exchange
  · show flowStock t (u s) ≤ flowStock t s
    rw [flowStock, hstates, hexchange]
    exact Nat.le_refl _

theorem pays_of_updates {p : Login α} (hp : Updates Untouched p.run) :
    Pays (flowLedger app calls t) (OnOk fun m _ => m = n) n p.run :=
  (pays_of_untouched hp).mono fun _ _ hm _ _ => hm

theorem keeps_issueTokensWithSession (service : Service) (a : LoginArgs) :
    Keeps (fun _ => True) (fun r => ∀ pair, r = .ok pair →
      ((issueTokensWithSession service a).run .empty).2 = .ok pair)
      (issueTokensWithSession service a) := by
  intro s _
  refine ⟨trivial, ?_⟩
  dsimp only
  cases (insertToken _ s).2 with
  | false => exact fun _ h => nomatch h
  | true =>
    intro s' _
    refine ⟨trivial, ?_⟩
    dsimp only
    cases (insertSession _ s').2 with
    | false => exact fun _ h => nomatch h
    | true => exact fun _ h => h

/-- What the tokens of a user are does not hang on what else happens. -/
theorem pays_issueTokens (c : Client) (user : User) :
    Pays (flowLedger app calls t) (OnOk fun m pair => m = n ∧ issued app c user = .ok pair) n
      (issueTokens app.toApp c user).run := by
  have hupdates : Updates Untouched (tokensFor app.toApp c user) :=
    updates_zoom (fun _ _ => ⟨rfl, rfl⟩) _
  have hresult : Keeps (fun _ => True)
      (fun r => ∀ pair, r = .ok pair → issued app c user = .ok pair)
      (tokensFor app.toApp c user) :=
    (keeps_issueTokensWithSession app.service (c.loginArgs user)).zoom (fun _ _ => trivial)
      fun _ _ _ _ => trivial
  refine Pays.except_bind (pays_lift ((pays_of_untouched hupdates).and_keeps hresult))
    fun m r hr => ?_
  cases r with
  | error e => exact pays_throw _
  | ok pair => exact pays_pure ⟨hr.1, hr.2 pair rfl⟩

variable {ticketOf : α → Ticket} {l : List α}

theorem held_append (e : α) :
    held ticketOf t (l ++ [e]) = held ticketOf t l + weight t (some (ticketOf e)) := by
  simp [held, weight, List.countP_append, List.countP_singleton]

/-- The ticket that is found is taken out. -/
theorem held_eraseP (found : α → Bool) :
    held ticketOf t (l.eraseP found) + weight t ((l.find? found).map ticketOf) =
      held ticketOf t l := by
  unfold held
  induction l with
  | nil => rfl
  | cons d l ih =>
    by_cases hd : found d = true
    · rw [List.eraseP_cons_of_pos hd, List.find?_cons_of_pos hd, List.countP_cons]
      simp [weight]
    · rw [List.eraseP_cons_of_neg hd, List.find?_cons_of_neg hd, List.countP_cons,
        List.countP_cons, ← ih]
      omega

theorem held_filter_le (kept : α → Bool) : held ticketOf t (l.filter kept) ≤ held ticketOf t l :=
  List.filter_sublist.countP_le

/-- A state that is found has been drawn, and is there no more. -/
theorem pays_validateState (state : String) :
    Pays (flowLedger app calls t) (OnOk fun m doc => ∀ v, doc = some v →
        weight t (some (.state state)) ≤ m ∧
          ∃ j q, calls j = .oidcLogin q ∧ q.state = state ∧ v = some q.codeVerifier) 0
      (Logins.atomic .consumeState (validateState state)).run := by
  refine pays_lift (pays_atomic fun s hs _ => ?_)
  refine ⟨⟨fun e he => hs.states e (List.mem_of_mem_eraseP he), hs.exchange⟩,
    weight t ((s.oidcPendingStates.find? (·.1 == state)).map fun e => .state e.1), ?_,
    fun v hv => ?_⟩
  · show flowStock t (validateState state s).1 + _ ≤ flowStock t s + 0
    unfold flowStock validateState
    have hheld := @held_eraseP t _ (fun e => .state e.1) s.oidcPendingStates (·.1 == state)
    dsimp only
    omega
  · obtain ⟨e, hfind, rfl⟩ := Option.map_eq_some_iff.mp hv
    obtain ⟨j, q, hj, rfl⟩ := hs.states e (List.mem_of_find?_eq_some hfind)
    have hstate : q.state = state := by simpa using List.find?_some hfind
    refine ⟨?_, j, q, hj, hstate, rfl⟩
    rw [hfind, ← hstate]
    exact Nat.le_refl _

/-- The nonce of a callback is drawn for its tokens. -/
theorem pays_storeTokenExchange {nonce : String} {pair : TokenPair}
    (hpair : ∃ j c q user, calls j = .samlCallback c q ∧ q.nonce = nonce ∧
      issued app c user = .ok pair) :
    Pays (flowLedger app calls t) (OnOk fun m _ => n ≤ m) (n + weight t (some (.nonce nonce)))
      (Logins.atomic .storeExchange (storeTokenExchange nonce pair)).run := by
  refine pays_lift (pays_atomic fun s hs _ => ?_)
  unfold storeTokenExchange
  split
  · exact ⟨hs, n + weight t (some (.nonce nonce)), Nat.le_refl _, Nat.le_add_right ..⟩
  · refine ⟨⟨hs.states, fun e he => ?_⟩, n, ?_, Nat.le_refl n⟩
    · rcases List.mem_append.mp he with he | he
      · exact hs.exchange e he
      · rw [List.mem_singleton.mp he]
        exact hpair
    · show flowStock t _ + n ≤ flowStock t s + (n + weight t (some (.nonce nonce)))
      unfold flowStock
      rw [held_append]
      dsimp only
      omega

theorem pays_oidcCallback {c : Client} {q : OidcCallback} :
    Pays (flowLedger app calls t) (OnOk fun m _ => weight t (some (.state q.state)) ≤ m ∧
        ∃ j q', calls j = .oidcLogin q' ∧ q'.state = q.state ∧
          ∃ claims, q.exchange (some q'.codeVerifier) = .ok claims) 0
      (Logins.oidcCallback app.toApp c q).run := by
  unfold Logins.oidcCallback
  refine .after_throwIf (.after_throwIf ?_)
  cases present q.error with
  | some error => exact pays_throw _
  | none =>
    refine Pays.except_bind (pays_validateState q.state) fun m doc hdoc => ?_
    refine .after_orThrow fun v hv => ?_
    obtain ⟨hweight, j, q', hj, hstate, rfl⟩ := hdoc v hv
    refine .after_ofExcept fun claims hclaims => .after_orThrow fun sub _ => ?_
    refine Pays.except_bind (pays_of_updates (updates_provisionSsoUser ..)) fun m user hm => ?_
    subst hm
    refine .after_throwIf ((pays_issueTokens c user).mono fun m r hr pair hpair => ?_)
    rw [(hr pair hpair).1]
    exact ⟨hweight, j, q', hj, hstate, claims, mapError_eq_ok_iff.mp hclaims⟩

theorem pays_samlCallback {j : Nat} {c : Client} {q : SamlAcs}
    {response : Except String SsoClaims} (hj : calls j = .samlCallback c q) :
    Pays (flowLedger app calls t) (OnOk fun m _ => n ≤ m ∧ ∃ claims, response = .ok claims)
      (n + weight t (some (.nonce q.nonce)))
      (Logins.samlCallback app.toApp c ⟨response, q.draw, q.nonce⟩).run := by
  unfold Logins.samlCallback
  refine .after_throwIf (.after_throwIf (.after_throwIf ?_))
  refine .after_ofExcept fun claims hclaims => .after_orThrow fun sub _ => ?_
  refine Pays.except_bind (pays_of_updates (updates_provisionSsoUser ..)) fun m user hm => ?_
  subst hm
  refine .after_throwIf (Pays.except_bind (pays_issueTokens c user) fun m pair hpair => ?_)
  obtain ⟨rfl, hissued⟩ := hpair
  refine Pays.except_bind (pays_storeTokenExchange ⟨j, c, q, user, hj, rfl, hissued⟩)
    fun m stored hm => ?_
  exact .after_throwIf (pays_pure ⟨hm, claims, mapError_eq_ok_iff.mp hclaims⟩)

/-- A process of the flows leaves the requests. -/
theorem pays_inLogins {p : Login α} {Q : Nat → α → Prop}
    (hp : Pays (flowLedger app calls t) (OnOk Q) n p.run) :
    Pays (ssoLedger app calls t) (OnOk Q) n (inLogins p).run := by
  refine Pays.zoom hp (fun _ h => h.1) (fun _ _ _ => trivial) (fun _ _ h hs => ⟨hs, h.2⟩) ?_
  intro s s' a b h
  have hflow : flowStock t s + a ≤ flowStock t s'.logins + b := h
  show ssoStock t (s'.setLogins s) + a ≤ ssoStock t s' + b
  unfold ssoStock SsoState.setLogins
  dsimp only
  omega

theorem pays_storeState {j : Nat} {q : OidcLogin} (hj : calls j = .oidcLogin q) :
    Pays (ssoLedger app calls t) (OnOk fun _ _ => True) (weight t (some (.state q.state)))
      (access .storeState (storeState q.state q.codeVerifier)).run := by
  refine pays_lift (pays_atomic fun s hs _ => ?_)
  unfold storeState
  split
  · exact ⟨hs, _, Nat.le_refl _, trivial⟩
  · refine ⟨⟨⟨fun e he => ?_, hs.1.exchange⟩, hs.2⟩, 0, ?_, trivial⟩
    · rcases List.mem_append.mp he with he | he
      · exact hs.1.states e he
      · exact ⟨j, q, hj, List.mem_singleton.mp he⟩
    · show ssoStock t _ + 0 ≤ ssoStock t s + _
      unfold ssoStock flowStock SsoState.setLogins
      rw [held_append]
      dsimp only
      omega

theorem pays_storeRequest {requestId : String} (hid : Requested calls requestId) :
    Pays (ssoLedger app calls t) (OnOk fun _ _ => True) (weight t (some (.request requestId)))
      (access .storeRequest (storeRequest requestId)).run := by
  refine pays_lift (pays_atomic fun s hs _ => ?_)
  unfold storeRequest
  split
  · exact ⟨hs, _, Nat.le_refl _, trivial⟩
  · refine ⟨⟨hs.1, fun id h => ?_⟩, 0, ?_, trivial⟩
    · rcases List.mem_append.mp h with h | h
      · exact hs.2 id h
      · rw [List.mem_singleton.mp h]
        exact hid
    · show ssoStock t _ + 0 ≤ ssoStock t s + _
      unfold ssoStock
      rw [held_append]
      dsimp only
      omega

theorem pays_consumeRequest (requestId : String) :
    Pays (ssoLedger app calls t) (OnOk fun m found => n ≤ m ∧ ∀ r, found = some r →
        n + weight t (some (.request requestId)) ≤ m ∧ Requested calls requestId) n
      (access .consumeRequest (consumeRequest requestId)).run := by
  refine pays_lift (pays_atomic fun s hs _ => ?_)
  refine ⟨⟨hs.1, fun id h => hs.2 id (List.mem_of_mem_eraseP h)⟩,
    n + weight t ((consumeRequest requestId s).2.map .request), ?_, Nat.le_add_right .., ?_⟩
  · show ssoStock t (consumeRequest requestId s).1 + _ ≤ ssoStock t s + n
    unfold ssoStock consumeRequest
    have hheld := @held_eraseP t _ .request s.samlPendingRequests (· == requestId)
    dsimp only
    omega
  · intro r hfind
    have hr : r = requestId := by simpa using List.find?_some hfind
    subst hr
    rw [hfind]
    exact ⟨Nat.le_refl _, hs.2 r (List.mem_of_find?_eq_some hfind)⟩

theorem pays_consumeTokenExchange (nonce : String) :
    Pays (ssoLedger app calls t) (OnOk fun m doc => ∀ e, doc = some e →
        weight t (some (.nonce nonce)) ≤ m ∧ ∃ j c q user, calls j = .samlCallback c q ∧
          q.nonce = nonce ∧ issued app c user = .ok e.2) 0
      (access .consumeExchange (consumeTokenExchange nonce)).run := by
  refine pays_lift (pays_atomic fun s hs _ => ?_)
  refine ⟨⟨⟨hs.1.states, fun e he => hs.1.exchange e (List.mem_of_mem_eraseP he)⟩, hs.2⟩,
    weight t ((consumeTokenExchange nonce s).2.map fun e => .nonce e.1), ?_, fun e hfind => ?_⟩
  · show ssoStock t (consumeTokenExchange nonce s).1 + _ ≤ ssoStock t s + 0
    unfold ssoStock flowStock consumeTokenExchange SsoState.setLogins
    have hheld :=
      @held_eraseP t _ (fun e => .nonce e.1) s.logins.samlTokenExchange (·.1 == nonce)
    dsimp only
    omega
  · obtain ⟨j, c, q, user, hj, hnonce, hissued⟩ :=
      hs.1.exchange e (List.mem_of_find?_eq_some hfind)
    have hkey : e.1 = nonce := by simpa using List.find?_some hfind
    refine ⟨?_, j, c, q, user, hj, hnonce.trans hkey, hissued⟩
    rw [hfind, ← hkey]
    exact Nat.le_refl _

theorem pays_expire (gone : String → Bool) :
    Pays (ssoLedger app calls t) (OnOk fun _ _ => True) 0
      (access .expire fun s => (expire gone s, SsoReply.expired)).run := by
  refine pays_lift (pays_atomic fun s hs _ => ?_)
  refine ⟨⟨⟨fun e he => ?_, fun e he => ?_⟩, fun id h => ?_⟩, 0, ?_, trivial⟩
  · exact hs.1.states e (List.mem_of_mem_filter he)
  · exact hs.1.exchange e (List.mem_of_mem_filter he)
  · exact hs.2 id (List.mem_of_mem_filter h)
  · exact Nat.add_le_add_right
      (Nat.add_le_add (Nat.add_le_add (held_filter_le _) (held_filter_le _)) (held_filter_le _)) 0

theorem weight_none : weight t none = 0 := if_neg nofun

/-- After a reply the call has the credit of the ticket that it used. -/
def Replied (app : SsoApp) (calls : Nat → SsoCall) (t : Ticket) (call : SsoCall) (m : Nat)
    (reply : SsoReply) : Prop :=
  Backed app calls call reply ∧ weight t call.uses ≤ m

theorem pays_oidcLogin {j : Nat} {q : OidcLogin} (hj : calls j = .oidcLogin q) :
    Pays (ssoLedger app calls t) (OnOk fun _ _ => True) (weight t (some (.state q.state)))
      (oidcLogin app q).run := by
  refine .after_throwIf (.after_ofExcept fun endpoint _ => ?_)
  refine Pays.except_bind (pays_storeState hj) fun m stored _ => ?_
  exact .after_throwIf (pays_pure trivial)

theorem pays_samlLogin {j : Nat} {q : SamlLogin} (hj : calls j = .samlLogin q) :
    Pays (ssoLedger app calls t) (OnOk fun _ _ => True) (weight t (calls j).draws)
      (samlLogin app q).run := by
  refine .after_throwIf (.after_throwIf (.after_ofExcept fun answer hanswer => ?_))
  obtain ⟨url, requestId⟩ := answer
  have hrequest := mapError_eq_ok_iff.mp hanswer
  dsimp only
  split
  · exact pays_pure trivial
  · rename_i hsome
    have hdraws : (calls j).draws = some (.request requestId) := by
      rw [hj, SsoCall.draws, hrequest]
      simp [Except.toOption, present, hsome]
    rw [hdraws]
    refine Pays.except_bind (pays_storeRequest ⟨j, q, url, hj, hrequest⟩) fun m stored _ => ?_
    exact .after_throwIf (pays_pure trivial)

theorem pays_processResponse {c : Client} {q : SamlAcs} :
    Pays (ssoLedger app calls t) (OnOk fun m response => n ≤ m ∧
        ((∃ claims, response = .ok claims) →
          n + weight t (SsoCall.samlCallback c q).uses ≤ m ∧
            ∀ reply, Backed app calls (.samlCallback c q) reply)) n
      (processResponse app q).run := by
  have hrefused : ∀ m exc, n ≤ m → Pays (ssoLedger app calls t)
      (OnOk fun m response => n ≤ m ∧ ((∃ claims, response = .ok claims) →
        n + weight t (SsoCall.samlCallback c q).uses ≤ m ∧
          ∀ reply, Backed app calls (.samlCallback c q) reply)) m
      (pure (.error exc) : SsoLogin (Except String SsoClaims)).run :=
    fun m exc hm => pays_pure ⟨hm, fun ⟨_, h⟩ => nomatch h⟩
  unfold processResponse
  cases hvalidated : q.validated with
  | error exc =>
    cases exc with
    | none => exact pays_throw _
    | some exc => exact hrefused n exc (Nat.le_refl n)
  | ok a =>
    dsimp only
    cases hid : present a.inResponseTo with
    | none => exact hrefused n _ (Nat.le_refl n)
    | some requestId =>
      refine Pays.except_bind (pays_consumeRequest requestId) fun m found hfound => ?_
      cases found with
      | none => exact hrefused m _ hfound.1
      | some r =>
        obtain ⟨hweight, hrequested⟩ := hfound.2 r rfl
        have huses : (SsoCall.samlCallback c q).uses = some (.request requestId) := by
          simp [SsoCall.uses, hvalidated, Except.toOption, hid]
        refine pays_pure ⟨hfound.1, fun _ => ⟨huses ▸ hweight, fun _ => ?_⟩⟩
        exact ⟨a, requestId, hvalidated, hid, hrequested⟩

theorem pays_samlAcs {j : Nat} {c : Client} {q : SamlAcs} (hj : calls j = .samlCallback c q) :
    Pays (ssoLedger app calls t) (OnOk fun m _ => weight t (SsoCall.samlCallback c q).uses ≤ m ∧
        ∀ reply, Backed app calls (.samlCallback c q) reply)
      (weight t (some (.nonce q.nonce))) (samlCallback app c q).run := by
  unfold samlCallback
  refine Pays.except_bind (R := fun m response => weight t (some (.nonce q.nonce)) ≤ m ∧
    ((∃ claims, response = .ok claims) → weight t (some (.nonce q.nonce)) +
      weight t (SsoCall.samlCallback c q).uses ≤ m ∧
        ∀ reply, Backed app calls (.samlCallback c q) reply)) ?_ fun m response hm => ?_
  · unfold responseTo
    split
    · exact pays_processResponse
    · exact pays_pure ⟨Nat.le_refl _, fun ⟨_, h⟩ => nomatch h⟩
  · obtain ⟨hnonce, hok⟩ := hm
    rw [← Nat.sub_add_cancel hnonce]
    refine pays_inLogins ((pays_samlCallback hj).mono fun k r hr url hurl => ?_)
    obtain ⟨hk, hclaims⟩ := hr url hurl
    obtain ⟨huses, hbacked⟩ := hok hclaims
    exact ⟨by omega, hbacked⟩

theorem pays_exchange {q : TokenExchange} :
    Pays (ssoLedger app calls t) (OnOk fun m pair => weight t (some (.nonce q.nonce)) ≤ m ∧
        Backed app calls (.samlTokenExchange q) (.tokens pair)) 0 (samlTokenExchange q).run := by
  refine .after_throwIf ?_
  refine Pays.except_bind (pays_consumeTokenExchange q.nonce) fun m doc hdoc => ?_
  cases doc with
  | none => exact pays_throw _
  | some doc =>
    obtain ⟨hweight, j, c, q', user, hj, hnonce, hissued⟩ := hdoc doc rfl
    exact pays_pure ⟨hweight, j, c, q', user, doc.2, hj, hnonce, hissued, rfl⟩

/-- The credit of a call is the ticket that it draws. -/
theorem pays_handle (i : Nat) :
    Pays (ssoLedger app calls t) (OnOk (Replied app calls t (calls i)))
      (weight t (calls i).draws) (handle app (calls i)).run := by
  cases hi : calls i with
  | oidcLogin q =>
    refine Pays.except_map ((pays_oidcLogin hi).mono fun m r hr url hurl => ?_)
    exact ⟨trivial, weight_none.le.trans (Nat.zero_le m)⟩
  | oidcCallback c q =>
    refine Pays.except_map (pays_inLogins ?_)
    rw [show weight t (SsoCall.oidcCallback c q).draws = 0 from weight_none]
    refine pays_oidcCallback.mono fun m r hr pair hpair => ?_
    obtain ⟨hweight, hbacked⟩ := hr pair hpair
    exact ⟨hbacked, hweight⟩
  | samlLogin q =>
    have hpays : Pays (ssoLedger app calls t) _ _ _ := pays_samlLogin hi
    rw [hi] at hpays
    refine Pays.except_map (hpays.mono fun m r hr url hurl => ?_)
    exact ⟨trivial, weight_none.le.trans (Nat.zero_le m)⟩
  | samlCallback c q =>
    refine Pays.except_map ((pays_samlAcs hi).mono fun m r hr url hurl => ?_)
    obtain ⟨hweight, hbacked⟩ := hr url hurl
    exact ⟨hbacked _, hweight⟩
  | samlTokenExchange q =>
    refine Pays.except_map ?_
    rw [show weight t (SsoCall.samlTokenExchange q).draws = 0 from weight_none]
    refine pays_exchange.mono fun m r hr pair hpair => ?_
    obtain ⟨hweight, hbacked⟩ := hr pair hpair
    exact ⟨hbacked, hweight⟩
  | expire gone =>
    rw [show weight t (SsoCall.expire gone).draws = 0 from weight_none]
    refine (pays_expire gone).mono fun m r hr reply hreply => ?_
    exact ⟨trivial, weight_none.le.trans (Nat.zero_le m)⟩

end Steps

abbrev SsoPool := Pool Nat SsoState SsoOp (fun _ => Except Logins.Failure SsoReply)

def begun (app : SsoApp) (calls : Nat → SsoCall) (users : List UserDoc) (auth : AuthStore)
    (firstUserClaimed : Bool) : SsoPool :=
  ⟨⟨⟨users, auth, firstUserClaimed, [], []⟩, []⟩, fun i => (handle app (calls i)).run⟩

section Runs

variable {app : SsoApp} {calls : Nat → SsoCall} {users : List UserDoc} {auth : AuthStore}
  {firstUserClaimed : Bool}

theorem paid_run (honce : DrawnOnce calls) (t : Ticket) (schedule : List Nat) :
    Pool.Paid (ssoLedger app calls t) (fun i => OnOk (Replied app calls t (calls i))) 1
      ((begun app calls users auth firstUserClaimed).exec schedule) := by
  have hstart : Pool.Paid (ssoLedger app calls t)
      (fun i => OnOk (Replied app calls t (calls i))) 1
      (begun app calls users auth firstUserClaimed) := by
    refine ⟨⟨⟨nofun, nofun⟩, nofun⟩, fun i => weight t (calls i).draws, pays_handle, ∅,
      fun T _ => ?_⟩
    show 0 + _ ≤ 1
    rw [Nat.zero_add]
    refine Pool.sum_le_one (fun i => ?_) (fun i j hi hj => ?_) T
    · unfold weight
      split
      · exact Nat.le_refl 1
      · exact Nat.zero_le 1
    · simp only [weight, ne_eq, ite_eq_right_iff, Nat.one_ne_zero, imp_false, not_not] at hi hj
      exact honce i j t hi hj
  have hallows : ∀ (c : SsoPool) (is : List Nat), Pool.Guarded (fun c i =>
      ∀ l, (c.procs i).next? = some l → (ssoLedger app calls t).allows l c.state) c is := by
    intro c is
    induction is generalizing c with
    | nil => trivial
    | cons i is ih => exact ⟨fun _ _ => trivial, ih _⟩
  exact hstart.exec (hallows _ schedule)

/-- Whatever the order of the steps, a call that gets its reply has used what another call
drew, and is the only one that gets a reply for it. -/
theorem used_once (app : SsoApp) (calls : Nat → SsoCall) (honce : DrawnOnce calls)
    (users : List UserDoc) (auth : AuthStore) (firstUserClaimed : Bool) (schedule : List Nat) :
    let c := (begun app calls users auth firstUserClaimed).exec schedule
    ∀ i reply, (c.procs i).result? = some (.ok reply) →
      Backed app calls (calls i) reply ∧
        ∀ j reply' t, (c.procs j).result? = some (.ok reply') → (calls i).uses = some t →
          (calls j).uses = some t → i = j := by
  intro c i reply hi
  have hreplied : ∀ t k r, (c.procs k).result? = some (.ok r) → ∀ credit : Nat → Nat,
      (∀ k, (c.procs k).Pays (ssoLedger app calls t)
        (OnOk (Replied app calls t (calls k))) (credit k)) →
      Replied app calls t (calls k) (credit k) r :=
    fun t k r hk credit hpays => (hpays k).of_result hk r rfl
  constructor
  · obtain ⟨credit, hpays, -⟩ := (paid_run honce (.state "") schedule).funded
    exact (hreplied _ i reply hi credit hpays).1
  · intro j reply' t hj huses huses'
    by_contra hne
    obtain ⟨credit, hpays, S, hsum⟩ := (paid_run honce t schedule).funded
    have hone : 1 ≤ credit i := by
      have hcredit := (hreplied t i reply hi credit hpays).2
      rwa [huses, weight, if_pos rfl] at hcredit
    have hother : 1 ≤ credit j := by
      have hcredit := (hreplied t j reply' hj credit hpays).2
      rwa [huses', weight, if_pos rfl] at hcredit
    have htwo := Pool.pair_le_sum hne credit S
    have hle : (ssoLedger app calls t).stock c.state +
        ∑ k ∈ insert i (insert j S), credit k ≤ 1 :=
      hsum _ ((Finset.subset_insert j S).trans (Finset.subset_insert i _))
    omega

end Runs

def sampleSsoApp : SsoApp where
  toApp := { Logins.sampleApp with samlEnabled := true, samlAvailable := true }
  oidcClientId := "sentora"
  oidcRedirectUri := "https://sentora.example.com/callback"
  codeChallenge := id

def samlUser : UserDoc where
  id := "1"
  username := "alice"
  email := "alice@example.com"
  samlSubject := some "alice-id"

def sampleCalls : Nat → SsoCall
  | 0 => .samlLogin ⟨.ok ("https://idp.example.com", "request")⟩
  | 1 => .samlCallback sampleClient
    ⟨.ok ⟨some "request", some "alice-id", []⟩, ⟨"2", "a", "b", fun _ => "c", "d"⟩, "nonce"⟩
  | 2 => .samlTokenExchange ⟨false, "nonce", by decide⟩
  | _ => .expire fun _ => false

theorem drawnOnce_sampleCalls : DrawnOnce sampleCalls := by
  have hdraws : ∀ k t, (sampleCalls k).draws = some t →
      k = 0 ∧ t = .request "request" ∨ k = 1 ∧ t = .nonce "nonce" := by
    intro k t hk
    rcases k with _ | _ | _ | k
    · exact Or.inl ⟨rfl, (Option.some.inj hk).symm⟩
    · exact Or.inr ⟨rfl, (Option.some.inj hk).symm⟩
    · cases hk
    · cases hk
  intro i j t hi hj
  obtain ⟨rfl, rfl⟩ | ⟨rfl, rfl⟩ := hdraws i t hi
  · obtain ⟨rfl, -⟩ | ⟨-, h⟩ := hdraws j _ hj
    · rfl
    · cases h
  · obtain ⟨-, h⟩ | ⟨rfl, -⟩ := hdraws j _ hj
    · cases h
    · rfl

theorem exchange_backed : ∃ reply,
    (((begun sampleSsoApp sampleCalls [samlUser] .empty true).exec
      [0, 1, 1, 1, 1, 1, 2]).procs 2).result? = some (.ok reply) ∧
      Backed sampleSsoApp sampleCalls (sampleCalls 2) reply :=
  ⟨_, rfl, (used_once sampleSsoApp sampleCalls drawnOnce_sampleCalls [samlUser] .empty true
    [0, 1, 1, 1, 1, 1, 2] 2 _ rfl).1⟩

end Sentora.Auth.SingleUse
