import Sentora.Auth.Tokens

/-!
# Access tokens

`verify_token` of `domains/auth/service.py` and the dependencies of
`middleware/auth.py` that accept a request.  Header values are the Latin-1 texts
that reach the application.
-/

namespace Sentora.Auth

structure HttpError where
  statusCode : Nat
  detail : String
deriving DecidableEq

structure TokenPayload where
  sub : String
  role : String
  exp : Option Nat := none
  sid : Option String := none
  jti : Option String := none
  tenantId : Option String := none
deriving DecidableEq

/-- `jwt.decode` with the audience and the issuer of access tokens, at a time. -/
abbrev Decoder := Nat → String → Except String Claims

def verifyToken (decode : Decoder) (now : Nat) (token : String) : Except String TokenPayload :=
  match decode now token with
  | .error exc => .error ("Invalid token: " ++ exc)
  | .ok payload =>
    if payload.type ≠ some "access" then
      .error "Invalid token type — expected access token"
    else
      match present payload.sub, present payload.role with
      | some sub, some role => .ok {
          sub := sub
          role := role
          exp := payload.exp
          sid := payload.sid
          jti := payload.jti
          tenantId := payload.tenantId }
      | _, _ => .error "Token missing required claims (sub, role)"

/-- The header value before its first space, and what follows that space. -/
def authorizationSchemeParam (header : String) : String × String :=
  (String.ofList (header.toList.takeWhile (· ≠ ' ')),
    String.ofList ((header.toList.dropWhile (· ≠ ' ')).drop 1))

/-- `str.lower` on Latin-1 text, where only the letters A to Z matter. -/
def lower (s : String) : String := String.ofList (s.toList.map Char.toLower)

/-- FastAPI's `HTTPBearer`: the token of an `Authorization` header. -/
abbrev Bearer := Option String → Except HttpError String

/-- The scheme word is accepted in any letter case, and the token is what follows
the first space. -/
def TakesToken (bearer : Bearer) : Prop :=
  ∀ authorization credentials, bearer authorization = .ok credentials ↔
    ∃ header, authorization = some header ∧
      lower (authorizationSchemeParam header).1 = "bearer" ∧
      (authorizationSchemeParam header).2 = credentials ∧ credentials ≠ ""

/-- What the process keeps in memory about revocations. -/
structure RevocationCaches where
  isUserRevoked : String → Bool
  isSessionRevoked : String → Bool

def getCurrentUser (bearer : Bearer) (decode : Decoder) (caches : RevocationCaches) (now : Nat)
    (authorization : Option String) : Except HttpError TokenPayload :=
  match bearer authorization with
  | .error e => .error e
  | .ok credentials =>
    match verifyToken decode now credentials with
    | .error exc => .error ⟨401, exc⟩
    | .ok payload =>
      if caches.isUserRevoked payload.sub then .error ⟨401, "Account has been disabled"⟩
      else if (present payload.sid).any caches.isSessionRevoked then
        .error ⟨401, "Session has been revoked"⟩
      else .ok payload

/-- `require_role`.  A `super_admin` has every role. -/
def requireRole (roles : List String) (payload : TokenPayload) : Except HttpError TokenPayload :=
  if payload.role = "super_admin" then .ok payload
  else if payload.role ∉ roles then .error ⟨403, "Insufficient permissions"⟩
  else .ok payload

theorem getCurrentUser_spec {bearer : Bearer} {decode : Decoder} {caches : RevocationCaches}
    {now : Nat} {authorization : Option String} {payload : TokenPayload}
    (h : getCurrentUser bearer decode caches now authorization = .ok payload) :
    ∃ credentials, bearer authorization = .ok credentials ∧
      verifyToken decode now credentials = .ok payload := by
  unfold getCurrentUser at h
  cases hbearer : bearer authorization with
  | error e =>
    rw [hbearer] at h
    cases h
  | ok credentials =>
    rw [hbearer] at h
    dsimp only at h
    cases hverify : verifyToken decode now credentials with
    | error exc =>
      rw [hverify] at h
      cases h
    | ok verified =>
      rw [hverify] at h
      dsimp only at h
      split at h
      · cases h
      · split at h
        · cases h
        · rw [← Except.ok.inj h]
          exact ⟨credentials, rfl, hverify⟩

/-- A `Bearer` that takes the token so. -/
def httpBearer : Bearer
  | none => .error ⟨401, "Not authenticated"⟩
  | some header =>
    if lower (authorizationSchemeParam header).1 = "bearer" ∧
        (authorizationSchemeParam header).2 ≠ "" then
      .ok (authorizationSchemeParam header).2
    else .error ⟨401, "Not authenticated"⟩

theorem takesToken_httpBearer : TakesToken httpBearer := by
  intro authorization credentials
  cases authorization with
  | none =>
    constructor
    · intro h
      cases h
    · rintro ⟨header, h, -⟩
      cases h
  | some header =>
    unfold httpBearer
    dsimp only
    by_cases h : lower (authorizationSchemeParam header).1 = "bearer" ∧
        (authorizationSchemeParam header).2 ≠ ""
    · rw [if_pos h, Except.ok.injEq]
      constructor
      · intro heq
        exact ⟨header, rfl, h.1, heq, heq ▸ h.2⟩
      · rintro ⟨header', hheader, -, heq, -⟩
        rw [Option.some.inj hheader]
        exact heq
    · rw [if_neg h]
      constructor
      · intro heq
        cases heq
      · rintro ⟨header', hheader, hscheme, heq, hne⟩
        rw [← heq] at hne
        rw [← Option.some.inj hheader] at hscheme hne
        exact absurd ⟨hscheme, hne⟩ h

end Sentora.Auth
