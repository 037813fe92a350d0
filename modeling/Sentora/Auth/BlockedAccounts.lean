import Sentora.Auth.Logins
import Sentora.Auth.Revocation
import Sentora.Lib.Fallible

/-!
# Blocked accounts at the logins

Which users each flow of `Logins` issues tokens for, and when a blocked account
is among them.
-/

namespace Sentora.Auth.Logins

open Lib Process

variable {app : App} {c : Client} {s s' : State} {user : User}

section Steps

variable {α : Type} {op : Op} {a : α}

@[simp] theorem returns_atomic {f : State → State × α} :
    Returns (Logins.atomic op f) s a s' ↔ f s = (s', a) :=
  returns_lift

@[simp] theorem returns_lookUp {f : State → α} :
    Returns (lookUp op f) s a s' ↔ a = f s ∧ s' = s := by
  unfold lookUp
  rw [returns_atomic, Prod.mk.injEq, eq_comm, and_comm, eq_comm]

@[simp] theorem returns_write {f : State → State} {u : Unit} :
    Returns (Logins.write op f) s u s' ↔ s' = f s := by
  unfold Logins.write
  rw [returns_atomic, Prod.mk.injEq, eq_comm]
  exact and_iff_left rfl

section Before

variable {β : Type} {b : β}

theorem returns_atomic_bind {f : State → State × α} {k : α → Login β} :
    Returns (Logins.atomic op f >>= k) s b s' ↔ Returns (k (f s).2) (f s).1 b s' := by
  rw [returns_bind]
  constructor
  · rintro ⟨a, t, hfirst, hrest⟩
    rw [returns_atomic.mp hfirst]
    exact hrest
  · intro h
    exact ⟨(f s).2, (f s).1, returns_atomic.mpr rfl, h⟩

theorem returns_lookUp_bind {f : State → α} {k : α → Login β} :
    Returns (lookUp op f >>= k) s b s' ↔ Returns (k (f s)) s b s' :=
  returns_atomic_bind

theorem returns_write_bind {f : State → State} {k : Unit → Login β} :
    Returns (Logins.write op f >>= k) s b s' ↔ Returns (k ()) (f s) b s' :=
  returns_atomic_bind

end Before

@[simp] theorem returns_toUser {doc : UserDoc} :
    Returns (toUser app doc) s user s' ↔ docToUser app.decrypt doc = .ok user ∧ s' = s := by
  unfold toUser
  rw [returns_ofExcept, mapError_eq_ok_iff]

@[simp] theorem returns_checkLimit {maxRequests window : Nat} {u : Unit} :
    Returns (checkLimit c maxRequests window) s u s' ↔ c.limited = false ∧ s' = s :=
  returns_throwIf

def PasswordRight (app : App) (password hashed : String) : Prop :=
  hashed ≠ "" ∧ app.verifyPassword password hashed = some true

theorem returns_passwordMatches {password hashed : String} :
    Returns (passwordMatches app password hashed) s true s' ↔
      PasswordRight app password hashed ∧ s' = s := by
  unfold passwordMatches PasswordRight
  by_cases hnone : hashed = ""
  · rw [if_pos hnone]
    simp [hnone]
  · rw [if_neg hnone]
    simp [hnone]

end Steps

theorem returns_getUserByUsername {username : String} :
    Returns (getUserByUsername app username) s (some user) s' ↔
      ∃ doc, findDoc username s.users = some doc ∧ docToUser app.decrypt doc = .ok user ∧
        s' = s := by
  unfold getUserByUsername
  rw [returns_lookUp_bind]
  cases findDoc username s.users with
  | none => simp
  | some doc => simp [returns_map]

def cleared (username : String) (doc : UserDoc) (s : State) : State :=
  if 0 < doc.failedLoginAttempts.getD 0 then
    s.updateUsers username fun d => { d with failedLoginAttempts := some 0, lockedUntil := none }
  else s

theorem returns_clearFailures {username : String} {doc : UserDoc} {u : Unit} :
    Returns (clearFailures username doc) s u s' ↔ s' = cleared username doc s := by
  unfold clearFailures cleared
  by_cases hcount : 0 < doc.failedLoginAttempts.getD 0
  · rw [if_pos hcount, if_pos hcount, returns_write]
  · rw [if_neg hcount, if_neg hcount, returns_pure]
    exact and_iff_right rfl

theorem returns_authenticateUser {username password : String} :
    Returns (authenticateUser app c username password) s (some user) s' ↔
      ∃ doc, findDoc username s.users = some doc ∧ isLocked c.checkedAt doc = false ∧
        PasswordRight app password (doc.hashedPassword.getD "") ∧
        docToUser app.decrypt doc = .ok user ∧ s' = cleared username doc s := by
  unfold authenticateUser
  rw [returns_lookUp_bind]
  cases findDoc username s.users with
  | none => simp [returns_orThrow_bind]
  | some doc =>
    dsimp only
    by_cases hlocked : isLocked c.checkedAt doc = true
    · rw [if_pos hlocked]
      simp [returns_orThrow_bind, hlocked]
    · rw [if_neg hlocked, returns_bind]
      have hopen : isLocked c.checkedAt doc = false := Bool.eq_false_iff.mpr hlocked
      constructor
      · rintro ⟨correct, t, hpassword, hrest⟩
        cases correct with
        | false =>
          rw [if_neg Bool.false_ne_true, returns_bind] at hrest
          obtain ⟨_, t', -, hnone⟩ := hrest
          simp at hnone
        | true =>
          obtain ⟨hright, rfl⟩ := returns_passwordMatches.mp hpassword
          rw [if_pos rfl, returns_bind] at hrest
          obtain ⟨_, t', hclear, hmap⟩ := hrest
          obtain ⟨u, hu, heq⟩ := returns_map.mp hmap
          obtain ⟨hread, rfl⟩ := returns_toUser.mp hu
          rw [← Option.some.inj heq] at hread
          exact ⟨doc, rfl, hopen, hright, hread, returns_clearFailures.mp hclear⟩
      · rintro ⟨doc', hdoc, -, hright, hread, rfl⟩
        cases hdoc
        refine ⟨true, s, returns_passwordMatches.mpr ⟨hright, rfl⟩, ?_⟩
        rw [if_pos rfl, returns_bind]
        refine ⟨(), _, returns_clearFailures.mpr rfl, ?_⟩
        exact returns_map.mpr ⟨user, returns_toUser.mpr ⟨hread, rfl⟩, rfl⟩

section Provisioning

variable {draw : SsoDraw} {claims : SsoClaims} {provider : Provider} {value : String}

def emailMatch (claims : SsoClaims) (users : List UserDoc) : Option UserDoc :=
  match present claims.email with
  | some email =>
    if claims.emailVerified then users.find? fun d => d.email == email else none
  | none => none

def ssoAccount (provider : Provider) (claims : SsoClaims) (value : String)
    (users : List UserDoc) : Option UserDoc :=
  match users.find? fun d => provider.subject d == some value with
  | some doc => some doc
  | none => (emailMatch claims users).filter fun doc => present (provider.subject doc) = none

theorem returns_findByEmail {matched : Option UserDoc} :
    Returns (findByEmail claims) s matched s' ↔ matched = emailMatch claims s.users ∧ s' = s := by
  unfold findByEmail emailMatch
  cases present claims.email with
  | none => exact returns_pure
  | some email =>
    dsimp only
    by_cases hverified : claims.emailVerified = true
    · rw [if_pos hverified, if_pos hverified, returns_lookUp]
    · rw [if_neg hverified, if_neg hverified, returns_pure]

theorem setSubject_of_subject {doc : UserDoc} (h : provider.subject doc = some value) :
    provider.setSubject value doc = doc := by
  cases provider with
  | oidcSubject =>
    show { doc with oidcSubject := some value } = doc
    rw [← show doc.oidcSubject = some value from h]
  | samlSubject =>
    show { doc with samlSubject := some value } = doc
    rw [← show doc.samlSubject = some value from h]

theorem active_of_createSsoUser
    (h : Returns (createSsoUser app draw claims provider value) s user s') :
    user.disabled = false ∧ user.status = .active := by
  unfold createSsoUser at h
  simp only [returns_bind, returns_pure] at h
  obtain ⟨_, _, _, _, _, _, doc, _, _, rfl, _⟩ := h
  exact ⟨rfl, rfl⟩

theorem returns_provisionSsoUser_of_account {doc : UserDoc}
    (h : ssoAccount provider claims value s.users = some doc) :
    (∃ s', Returns (provisionSsoUser app draw claims provider value) s user s') ↔
      docToUser app.decrypt (provider.setSubject value doc) = .ok user := by
  unfold provisionSsoUser
  unfold ssoAccount at h
  simp only [returns_lookUp_bind]
  cases hfound : s.users.find? fun d => provider.subject d == some value with
  | some found =>
    rw [hfound] at h
    cases h
    have hsubject : provider.subject doc = some value := by
      have hquery := List.find?_some hfound
      exact beq_iff_eq.mp hquery
    rw [setSubject_of_subject hsubject]
    simp
  | none =>
    rw [hfound] at h
    obtain ⟨hmatch, hfree⟩ := Option.filter_eq_some_iff.mp h
    rw [decide_eq_true_eq] at hfree
    dsimp only
    simp only [returns_bind_of_still fun _ _ => returns_findByEmail, hmatch, exists_eq_left,
      hfree, if_true, returns_write_bind, returns_toUser]
    simp

theorem returns_provisionSsoUser_of_none (h : ssoAccount provider claims value s.users = none) :
    Returns (provisionSsoUser app draw claims provider value) s user s' ↔
      Returns (createSsoUser app draw claims provider value) s user s' := by
  unfold ssoAccount at h
  unfold provisionSsoUser
  rw [returns_lookUp_bind]
  cases hfound : s.users.find? fun d => provider.subject d == some value with
  | some found =>
    rw [hfound] at h
    cases h
  | none =>
    rw [hfound] at h
    dsimp only at h ⊢
    rw [returns_bind_of_still fun _ _ => returns_findByEmail, exists_eq_left]
    cases hmatch : emailMatch claims s.users with
    | none => rfl
    | some doc =>
      rw [hmatch] at h
      have htaken : ¬present (provider.subject doc) = none := by
        intro hfree
        simp [Option.filter, hfree] at h
      dsimp only
      rw [if_neg htaken]

theorem active_of_provisionSsoUser (h : ssoAccount provider claims value s.users = none)
    (hret : Returns (provisionSsoUser app draw claims provider value) s user s') :
    user.disabled = false ∧ user.status = .active :=
  active_of_createSsoUser ((returns_provisionSsoUser_of_none h).mp hret)

/-! A provisioning leaves the tokens. -/

def outside (s : State) : AuthStore × List (String × TokenPair) := (s.auth, s.samlTokenExchange)

theorem leaves_atomic {α : Type} {op : Op} {f : State → State × α}
    (h : ∀ s, outside (f s).1 = outside s) : Leaves outside (Logins.atomic op f) :=
  leaves_lift h

theorem leaves_toUser (doc : UserDoc) : Leaves outside (toUser app doc) := by
  intro s user s' h
  rw [(returns_toUser.mp h).2]

theorem leaves_uniqueUsernameFrom (base random : String) (n : Nat) (username : String) :
    Leaves outside (uniqueUsernameFrom base random n username) := by
  induction n generalizing username with
  | zero => exact leaves_pure _
  | succ n ih =>
    refine Leaves.bind (leaves_atomic fun _ => rfl) fun taken => ?_
    cases taken with
    | true => exact ih _
    | false => exact leaves_pure _

theorem insertUser_outside (doc : UserDoc) (s : State) :
    outside (insertUser doc s).1 = outside s := by
  unfold insertUser
  split
  · rfl
  · rfl

theorem leaves_insertNewUser (newDoc : String → UserDoc) (attempts : Nat) (username : String) :
    Leaves outside (insertNewUser newDoc draw attempts username) := by
  induction attempts generalizing username with
  | zero =>
    refine Leaves.bind (leaves_atomic (insertUser_outside _)) fun inserted => ?_
    cases inserted with
    | true => exact leaves_pure _
    | false => exact fun _ _ _ h => absurd h returns_throw
  | succ attempts ih =>
    refine Leaves.bind (leaves_atomic (insertUser_outside _)) fun inserted => ?_
    cases inserted with
    | true => exact leaves_pure _
    | false => exact ih _

theorem leaves_createSsoUser : Leaves outside (createSsoUser app draw claims provider value) := by
  refine Leaves.bind (leaves_uniqueUsernameFrom _ _ _ _) fun username => ?_
  refine Leaves.bind ?_ fun firstUserRole => ?_
  · exact Leaves.bind (leaves_atomic fun _ => rfl) fun _ => leaves_pure _
  · exact Leaves.bind (leaves_insertNewUser _ _ _) fun _ => leaves_pure _

theorem leaves_findByEmail : Leaves outside (findByEmail claims) := by
  intro s matched s' h
  rw [(returns_findByEmail.mp h).2]

theorem leaves_provisionSsoUser :
    Leaves outside (provisionSsoUser app draw claims provider value) := by
  refine Leaves.bind (leaves_atomic fun _ => rfl) fun found => ?_
  cases found with
  | some doc => exact leaves_toUser doc
  | none =>
    refine Leaves.bind leaves_findByEmail fun matched => ?_
    cases matched with
    | none => exact leaves_createSsoUser
    | some doc =>
      dsimp only
      split
      · exact Leaves.bind (leaves_atomic fun _ => rfl) fun _ => leaves_toUser _
      · exact leaves_createSsoUser

end Provisioning

/-- What issuing tokens draws is new. -/
def Fresh (c : Client) (auth : AuthStore) : Prop :=
  (∀ d ∈ auth.refreshTokens, d.tokenId ≠ c.draw.tokenId) ∧
    ∀ d ∈ auth.sessions, d.sessionId ≠ c.sessionId

theorem issueTokensWithSession_ok_iff {service : Service} {a : LoginArgs} {store : AuthStore} :
    (∃ pair, ((issueTokensWithSession service a).run store).2 = .ok pair) ↔
      (∀ d ∈ store.refreshTokens, d.tokenId ≠ a.draw.tokenId) ∧
        ∀ d ∈ store.sessions, d.sessionId ≠ a.sessionId := by
  have hfam : (present none).getD a.draw.family = a.draw.family := rfl
  unfold issueTokensWithSession
  rw [run_bind, run_createRefreshToken hfam]
  by_cases hnew : ∀ d ∈ store.refreshTokens, d.tokenId ≠ a.draw.tokenId
  · rw [if_pos hnew, and_iff_right hnew]
    unfold startSession createSession
    dsimp only
    rw [run_bind, run_bind, run_atomic]
    unfold insertSession
    by_cases hold : store.sessions.any (fun d => d.sessionId == a.sessionId) = true
    · rw [if_pos hold]
      refine iff_of_false ?_ fun hall => ?_
      · rintro ⟨pair, h⟩
        cases h
      · obtain ⟨d, hd, heq⟩ := List.any_eq_true.mp hold
        exact hall d hd (beq_iff_eq.mp heq)
    · rw [if_neg hold]
      refine iff_of_true ⟨_, rfl⟩ fun d hd heq => hold ?_
      exact List.any_eq_true.mpr ⟨d, hd, beq_iff_eq.mpr heq⟩
  · rw [if_neg hnew]
    refine iff_of_false ?_ fun h => hnew h.1
    rintro ⟨pair, h⟩
    cases h

theorem run_tokensFor : (tokensFor app c user).run s =
    let issued := (issueTokensWithSession app.service (c.loginArgs user)).run s.auth
    (s.setAuth issued.1, issued.2) := by
  apply run_zoom
  · exact fun _ _ => rfl
  · exact fun _ _ _ => rfl
  · exact fun _ => rfl

theorem returns_issueTokens {pair : TokenPair} : Returns (issueTokens app c user) s pair s' ↔
    let issued := (issueTokensWithSession app.service (c.loginArgs user)).run s.auth
    issued.2 = .ok pair ∧ s' = s.setAuth issued.1 := by
  unfold issueTokens
  simp only [returns_bind, returns_lift, run_tokensFor, returns_ofExcept, mapError_eq_ok_iff,
    Prod.mk.injEq]
  constructor
  · rintro ⟨issued, t, ⟨rfl, rfl⟩, h⟩
    exact h
  · intro h
    exact ⟨_, _, ⟨rfl, rfl⟩, h⟩

theorem issueTokens_iff :
    (∃ pair s', Returns (issueTokens app c user) s pair s') ↔ Fresh c s.auth := by
  have hfresh : (∃ pair, ((issueTokensWithSession app.service (c.loginArgs user)).run
      s.auth).2 = .ok pair) ↔ Fresh c s.auth :=
    issueTokensWithSession_ok_iff
  rw [← hfresh]
  constructor
  · rintro ⟨pair, s', h⟩
    exact ⟨pair, (returns_issueTokens.mp h).1⟩
  · rintro ⟨pair, h⟩
    exact ⟨pair, _, returns_issueTokens.mpr ⟨h, rfl⟩⟩

def CodeRight (app : App) (c : Client) (user : User) (code : String) : Prop :=
  ∃ secret, present user.totpSecret = some secret ∧
    app.verifyTotp c.verifiedAt secret code = some true

def SecondFactor (app : App) (c : Client) (user : User) (totpCode : Option String) : Prop :=
  user.totpEnabled = true → ∃ code, present totpCode = some code ∧ CodeRight app c user code

/-- A check that leaves the state, before the rest. -/
theorem returns_require {β : Type} {b : β} {p : Login Bool} {P : Prop} {e : Failure}
    {k : Unit → Login β} (hp : ∀ t, Returns p s true t ↔ P ∧ t = s) :
    Returns (p >>= fun valid => throwIf (!valid) e >>= k) s b s' ↔ P ∧ Returns (k ()) s b s' := by
  rw [returns_bind]
  constructor
  · rintro ⟨valid, t, hfirst, hrest⟩
    obtain ⟨hvalid, hrest⟩ := returns_throwIf_bind.mp hrest
    rw [Bool.not_eq_false'] at hvalid
    rw [hvalid] at hfirst
    obtain ⟨hP, rfl⟩ := (hp t).mp hfirst
    exact ⟨hP, hrest⟩
  · rintro ⟨hP, hrest⟩
    exact ⟨true, s, (hp s).mpr ⟨hP, rfl⟩, returns_throwIf_bind.mpr ⟨rfl, hrest⟩⟩

theorem returns_totpMatches {code : String} :
    Returns (totpMatches app c user code) s true s' ↔ CodeRight app c user code ∧ s' = s := by
  unfold totpMatches CodeRight
  cases present user.totpSecret with
  | none => simp
  | some secret => simp

theorem returns_requireTotp {totpCode : Option String} {u : Unit} :
    Returns (requireTotp app c user totpCode) s u s' ↔
      SecondFactor app c user totpCode ∧ s' = s := by
  unfold requireTotp SecondFactor
  by_cases henabled : user.totpEnabled = true
  · rw [if_pos henabled, returns_orThrow_bind]
    constructor
    · rintro ⟨code, hcode, h⟩
      obtain ⟨valid, t, hmatches, hthrow⟩ := returns_bind.mp h
      obtain ⟨hvalid, rfl⟩ := returns_throwIf.mp hthrow
      rw [Bool.not_eq_false'] at hvalid
      rw [hvalid] at hmatches
      obtain ⟨hright, rfl⟩ := returns_totpMatches.mp hmatches
      exact ⟨fun _ => ⟨code, hcode, hright⟩, rfl⟩
    · rintro ⟨h, rfl⟩
      obtain ⟨code, hcode, hright⟩ := h henabled
      refine ⟨code, hcode, returns_bind.mpr ⟨true, s', ?_, ?_⟩⟩
      · exact returns_totpMatches.mpr ⟨hright, rfl⟩
      · exact returns_throwIf.mpr ⟨rfl, rfl⟩
  · rw [if_neg henabled, returns_pure]
    simp [henabled]

/-- What `authenticate_user` asks of the stored user. -/
def Authentic (app : App) (c : Client) (password : String) (doc : UserDoc) : Prop :=
  isLocked c.checkedAt doc = false ∧ PasswordRight app password (doc.hashedPassword.getD "")

theorem cleared_auth (username : String) (doc : UserDoc) (s : State) :
    (cleared username doc s).auth = s.auth := by
  unfold cleared
  split
  · rfl
  · rfl

theorem login_iff {payload : LoginRequest} :
    (∃ pair s', Returns (login app c payload) s pair s') ↔
      ∃ user, (∃ t, Returns (authenticateUser app c payload.username payload.password) s
          (some user) t) ∧
        isRefused user = false ∧ SecondFactor app c user payload.totpCode ∧ Fresh c s.auth := by
  unfold login
  constructor
  · rintro ⟨pair, s', h⟩
    obtain ⟨found, t, hfound, h⟩ := returns_bind.mp h
    obtain ⟨user, rfl, h⟩ := returns_orThrow_bind.mp h
    obtain ⟨hopen, h⟩ := returns_throwIf_bind.mp h
    rw [returns_bind_of_still fun _ _ => returns_requireTotp] at h
    obtain ⟨_, hfactor, h⟩ := h
    obtain ⟨doc, -, -, -, -, rfl⟩ := returns_authenticateUser.mp hfound
    have hfresh := issueTokens_iff.mp ⟨pair, s', h⟩
    rw [cleared_auth] at hfresh
    exact ⟨user, ⟨_, hfound⟩, hopen, hfactor, hfresh⟩
  · rintro ⟨user, ⟨t, hfound⟩, hopen, hfactor, hfresh⟩
    obtain ⟨doc, -, -, -, -, rfl⟩ := returns_authenticateUser.mp hfound
    have hissue : ∃ pair s',
        Returns (issueTokens app c user) (cleared payload.username doc s) pair s' := by
      rw [issueTokens_iff, cleared_auth]
      exact hfresh
    obtain ⟨pair, s', h⟩ := hissue
    refine ⟨pair, s', returns_bind.mpr ⟨_, _, hfound, ?_⟩⟩
    refine returns_orThrow_bind.mpr ⟨user, rfl, returns_throwIf_bind.mpr ⟨hopen, ?_⟩⟩
    rw [returns_bind_of_still fun _ _ => returns_requireTotp]
    exact ⟨(), hfactor, h⟩

/-- What the set-up asks besides the account. -/
structure SetUp (app : App) (c : Client) (payload : TotpVerifySetupRequest) (user : User) :
    Prop where
  unlimited : c.limited = false
  password : PasswordRight app payload.password user.hashedPassword
  pending : user.totpEnabled = false
  code : CodeRight app c user payload.code

theorem verifyTotpSetup_iff {payload : TotpVerifySetupRequest} :
    (∃ pair s', Returns (verifyTotpSetup app c payload) s pair s') ↔
      ∃ user, (∃ t, Returns (getUserByUsername app payload.username) s (some user) t) ∧
        SetUp app c payload user ∧ Fresh c s.auth := by
  unfold verifyTotpSetup
  constructor
  · rintro ⟨pair, s', h⟩
    rw [returns_bind_of_still fun _ _ => returns_checkLimit] at h
    obtain ⟨_, hlimit, h⟩ := h
    obtain ⟨found, t, hfound, hchecks⟩ := returns_bind.mp h
    obtain ⟨user, rfl, hchecks⟩ := returns_orThrow_bind.mp hchecks
    obtain ⟨hpassword, hcode⟩ := (returns_require fun _ => returns_passwordMatches).mp hchecks
    obtain ⟨hpending, hcode⟩ := returns_throwIf_bind.mp hcode
    obtain ⟨secret, hsecret, hcode⟩ := returns_orThrow_bind.mp hcode
    obtain ⟨hvalid, hissue⟩ := (returns_require fun _ => returns_orThrow).mp hcode
    rw [returns_write_bind] at hissue
    have hfresh := issueTokens_iff.mp ⟨pair, s', hissue⟩
    obtain ⟨doc, -, -, rfl⟩ := returns_getUserByUsername.mp hfound
    exact ⟨user, ⟨t, hfound⟩, ⟨hlimit, hpassword, hpending, secret, hsecret, hvalid⟩, hfresh⟩
  · rintro ⟨user, ⟨t, hfound⟩, hsetUp, hfresh⟩
    obtain ⟨doc, -, -, rfl⟩ := returns_getUserByUsername.mp hfound
    obtain ⟨secret, hsecret, hvalid⟩ := hsetUp.code
    let activated := t.updateUsers payload.username fun d => { d with totpEnabled := some true }
    have hissue : ∃ pair s', Returns (issueTokens app c user) activated pair s' :=
      issueTokens_iff.mpr hfresh
    obtain ⟨pair, s', h⟩ := hissue
    refine ⟨pair, s', ?_⟩
    rw [returns_bind_of_still fun _ _ => returns_checkLimit]
    refine ⟨(), hsetUp.unlimited, returns_bind.mpr ⟨_, _, hfound, ?_⟩⟩
    refine returns_orThrow_bind.mpr ⟨user, rfl, ?_⟩
    refine (returns_require fun _ => returns_passwordMatches).mpr ⟨hsetUp.password, ?_⟩
    refine returns_throwIf_bind.mpr ⟨hsetUp.pending, ?_⟩
    refine returns_orThrow_bind.mpr ⟨secret, hsecret, ?_⟩
    refine (returns_require fun _ => returns_orThrow).mpr ⟨hvalid, ?_⟩
    exact returns_write_bind.mpr h

def OidcCallback.Brings (q : OidcCallback) (s : State) (claims : SsoClaims) (sub : String) :
    Prop :=
  ∃ codeVerifier, (validateState q.state s).2 = some codeVerifier ∧
    q.exchange codeVerifier = .ok claims ∧ claims.sub = some sub

def SamlCallback.Brings (q : SamlCallback) (claims : SsoClaims) (sub : String) : Prop :=
  q.response = .ok claims ∧ present claims.sub = some sub

def OidcCallback.Open (app : App) (c : Client) (q : OidcCallback) : Prop :=
  app.oidcEnabled = true ∧ c.limited = false ∧ present q.error = none

structure SamlCallback.Open (app : App) (c : Client) (s : State) (q : SamlCallback) : Prop where
  enabled : app.samlEnabled = true
  available : app.samlAvailable = true
  unlimited : c.limited = false
  nonce : ∀ e ∈ s.samlTokenExchange, e.1 ≠ q.nonce

theorem oidcCallback_iff {q : OidcCallback} :
    (∃ pair s', Returns (oidcCallback app c q) s pair s') ↔
      ∃ user, (∃ claims sub t, q.Brings s claims sub ∧
          Returns (provisionSsoUser app q.draw claims .oidcSubject sub)
            (validateState q.state s).1 user t) ∧
        isRefused user = false ∧ q.Open app c ∧ Fresh c s.auth := by
  unfold oidcCallback
  constructor
  · rintro ⟨pair, s', h⟩
    obtain ⟨henabled, h⟩ := returns_throwIf_bind.mp h
    rw [returns_bind_of_still fun _ _ => returns_checkLimit] at h
    obtain ⟨_, hlimit, h⟩ := h
    cases herror : present q.error with
    | some error =>
      rw [herror] at h
      exact absurd h returns_throw
    | none =>
      rw [herror] at h
      dsimp only at h
      rw [returns_atomic_bind] at h
      obtain ⟨codeVerifier, hstate, h⟩ := returns_orThrow_bind.mp h
      obtain ⟨claims, hclaims, h⟩ := returns_ofExcept_bind.mp h
      obtain ⟨sub, hsub, h⟩ := returns_orThrow_bind.mp h
      obtain ⟨user, t, huser, h⟩ := returns_bind.mp h
      obtain ⟨hopen, h⟩ := returns_throwIf_bind.mp h
      have hfresh := issueTokens_iff.mp ⟨pair, s', h⟩
      rw [show t.auth = s.auth from congrArg Prod.fst (leaves_provisionSsoUser _ _ _ huser)]
        at hfresh
      refine ⟨user, ⟨claims, sub, t, ?_, huser⟩, hopen, ?_, hfresh⟩
      · exact ⟨codeVerifier, hstate, mapError_eq_ok_iff.mp hclaims, hsub⟩
      · exact ⟨Bool.not_eq_eq_eq_not.mp henabled, hlimit, herror⟩
  · rintro ⟨user, ⟨claims, sub, t, ⟨codeVerifier, hstate, hclaims, hsub⟩, huser⟩, hopen, hq,
      hfresh⟩
    obtain ⟨henabled, hlimit, herror⟩ := hq
    have hissue : ∃ pair s', Returns (issueTokens app c user) t pair s' := by
      rw [issueTokens_iff,
        show t.auth = s.auth from congrArg Prod.fst (leaves_provisionSsoUser _ _ _ huser)]
      exact hfresh
    obtain ⟨pair, s', h⟩ := hissue
    refine ⟨pair, s', returns_throwIf_bind.mpr ⟨Bool.not_eq_eq_eq_not.mpr henabled, ?_⟩⟩
    rw [returns_bind_of_still fun _ _ => returns_checkLimit]
    refine ⟨(), hlimit, ?_⟩
    rw [herror]
    refine returns_atomic_bind.mpr (returns_orThrow_bind.mpr ⟨codeVerifier, hstate, ?_⟩)
    refine returns_ofExcept_bind.mpr ⟨claims, mapError_eq_ok_iff.mpr hclaims, ?_⟩
    refine returns_orThrow_bind.mpr ⟨sub, hsub, returns_bind.mpr ⟨user, t, huser, ?_⟩⟩
    exact returns_throwIf_bind.mpr ⟨hopen, h⟩

theorem storeTokenExchange_iff {nonce : String} {pair : TokenPair} :
    (storeTokenExchange nonce pair s).2 = true ↔ ∀ e ∈ s.samlTokenExchange, e.1 ≠ nonce := by
  unfold storeTokenExchange
  by_cases hold : s.samlTokenExchange.any (fun e => e.1 == nonce) = true
  · rw [if_pos hold]
    refine iff_of_false Bool.false_ne_true fun hall => ?_
    obtain ⟨e, he, heq⟩ := List.any_eq_true.mp hold
    exact hall e he (beq_iff_eq.mp heq)
  · rw [if_neg hold]
    refine iff_of_true rfl fun e he heq => hold ?_
    exact List.any_eq_true.mpr ⟨e, he, beq_iff_eq.mpr heq⟩

theorem samlCallback_iff {q : SamlCallback} :
    (∃ url s', Returns (samlCallback app c q) s url s') ↔
      ∃ user, (∃ claims sub t, q.Brings claims sub ∧
          Returns (provisionSsoUser app q.draw claims .samlSubject sub) s user t) ∧
        isRefused user = false ∧ q.Open app c s ∧ Fresh c s.auth := by
  unfold samlCallback
  constructor
  · rintro ⟨url, s', h⟩
    obtain ⟨henabled, h⟩ := returns_throwIf_bind.mp h
    obtain ⟨havailable, h⟩ := returns_throwIf_bind.mp h
    rw [returns_bind_of_still fun _ _ => returns_checkLimit] at h
    obtain ⟨_, hlimit, h⟩ := h
    obtain ⟨claims, hclaims, h⟩ := returns_ofExcept_bind.mp h
    obtain ⟨sub, hsub, h⟩ := returns_orThrow_bind.mp h
    obtain ⟨user, t, huser, h⟩ := returns_bind.mp h
    obtain ⟨hopen, h⟩ := returns_throwIf_bind.mp h
    obtain ⟨pair, t', hissue, h⟩ := returns_bind.mp h
    rw [returns_atomic_bind] at h
    obtain ⟨hstored, -⟩ := returns_throwIf_bind.mp h
    have hleft := leaves_provisionSsoUser _ _ _ huser
    have hfresh := issueTokens_iff.mp ⟨pair, t', hissue⟩
    rw [show t.auth = s.auth from congrArg Prod.fst hleft] at hfresh
    have hnonce : (storeTokenExchange q.nonce pair t').2 = true :=
      Bool.not_eq_eq_eq_not.mp hstored
    rw [storeTokenExchange_iff, (returns_issueTokens.mp hissue).2] at hnonce
    refine ⟨user, ⟨claims, sub, t, ⟨mapError_eq_ok_iff.mp hclaims, hsub⟩, huser⟩, hopen, ?_, hfresh⟩
    refine ⟨Bool.not_eq_eq_eq_not.mp henabled, Bool.not_eq_eq_eq_not.mp havailable, hlimit, ?_⟩
    rw [← show t.samlTokenExchange = s.samlTokenExchange from congrArg Prod.snd hleft]
    exact hnonce
  · rintro ⟨user, ⟨claims, sub, t, ⟨hclaims, hsub⟩, huser⟩, hopen, hq, hfresh⟩
    have hleft := leaves_provisionSsoUser _ _ _ huser
    have hissues : ∃ pair t', Returns (issueTokens app c user) t pair t' := by
      rw [issueTokens_iff, show t.auth = s.auth from congrArg Prod.fst hleft]
      exact hfresh
    obtain ⟨pair, t', hissue⟩ := hissues
    have hnonce : (storeTokenExchange q.nonce pair t').2 = true := by
      rw [storeTokenExchange_iff, (returns_issueTokens.mp hissue).2]
      show ∀ e ∈ t.samlTokenExchange, e.1 ≠ q.nonce
      rw [show t.samlTokenExchange = s.samlTokenExchange from congrArg Prod.snd hleft]
      exact hq.nonce
    refine ⟨"/auth/saml/complete?saml_nonce=" ++ q.nonce,
      (storeTokenExchange q.nonce pair t').1, ?_⟩
    refine returns_throwIf_bind.mpr ⟨Bool.not_eq_eq_eq_not.mpr hq.enabled, ?_⟩
    refine returns_throwIf_bind.mpr ⟨Bool.not_eq_eq_eq_not.mpr hq.available, ?_⟩
    rw [returns_bind_of_still fun _ _ => returns_checkLimit]
    refine ⟨(), hq.unlimited, ?_⟩
    refine returns_ofExcept_bind.mpr ⟨claims, mapError_eq_ok_iff.mpr hclaims, ?_⟩
    refine returns_orThrow_bind.mpr ⟨sub, hsub, returns_bind.mpr ⟨user, t, huser, ?_⟩⟩
    refine returns_throwIf_bind.mpr ⟨hopen, returns_bind.mpr ⟨pair, t', hissue, ?_⟩⟩
    refine returns_atomic_bind.mpr (returns_throwIf_bind.mpr ⟨?_, returns_pure.mpr ⟨rfl, rfl⟩⟩)
    exact Bool.not_eq_eq_eq_not.mpr hnonce

def Flow.IsAbout (app : App) (c : Client) (s : State) : Flow → User → Prop
  | .login payload, user =>
    ∃ t, Returns (authenticateUser app c payload.username payload.password) s (some user) t
  | .verifyTotpSetup payload, user =>
    ∃ t, Returns (getUserByUsername app payload.username) s (some user) t
  | .oidcCallback q, user => ∃ claims sub t, q.Brings s claims sub ∧
    Returns (provisionSsoUser app q.draw claims .oidcSubject sub) (validateState q.state s).1 user t
  | .samlCallback q, user => ∃ claims sub t, q.Brings claims sub ∧
    Returns (provisionSsoUser app q.draw claims .samlSubject sub) s user t

def Flow.Gate : Flow → User → Prop
  | .verifyTotpSetup _, _ => True
  | _, user => isRefused user = false

/-- The other checks of the user, and what the flow asks besides. -/
def Flow.Passes (app : App) (c : Client) (s : State) : Flow → User → Prop
  | .login payload, user => SecondFactor app c user payload.totpCode ∧ Fresh c s.auth
  | .verifyTotpSetup payload, user => SetUp app c payload user ∧ Fresh c s.auth
  | .oidcCallback q, _ => q.Open app c ∧ Fresh c s.auth
  | .samlCallback q, _ => q.Open app c s ∧ Fresh c s.auth

variable {flow : Flow}

theorem returns_map_iff {α β : Type} {p : Login α} {f : α → β} :
    (∃ b s', Returns (f <$> p) s b s') ↔ ∃ a s', Returns p s a s' := by
  simp only [returns_map]
  constructor
  · rintro ⟨_, s', a, h, -⟩
    exact ⟨a, s', h⟩
  · rintro ⟨a, s', h⟩
    exact ⟨f a, s', a, h, rfl⟩

theorem handle_iff : (∃ reply s', Returns (flow.handle app c) s reply s') ↔
    ∃ user, flow.IsAbout app c s user ∧ flow.Gate user ∧ flow.Passes app c s user := by
  cases flow with
  | login payload => exact returns_map_iff.trans login_iff
  | verifyTotpSetup payload =>
    refine returns_map_iff.trans (verifyTotpSetup_iff.trans ?_)
    show _ ↔ ∃ user, _ ∧ True ∧ _
    simp only [true_and]
    rfl
  | oidcCallback q => exact returns_map_iff.trans oidcCallback_iff
  | samlCallback q => exact returns_map_iff.trans samlCallback_iff

def Active (user : User) : Prop := user.disabled = false ∧ user.status = .active

def OnlyActive (app : App) (c : Client) (s : State) (flow : Flow) : Prop :=
  ∀ reply s' user, Returns (flow.handle app c) s reply s' → flow.IsAbout app c s user → Active user

/-- The stored account that the flow finds, with the subject it then has. -/
def Flow.Account (s : State) : Flow → UserDoc → Prop
  | .login payload, doc => findDoc payload.username s.users = some doc
  | .verifyTotpSetup payload, doc => findDoc payload.username s.users = some doc
  | .oidcCallback q, doc => ∃ claims sub found, q.Brings s claims sub ∧
    ssoAccount .oidcSubject claims sub s.users = some found ∧
    doc = Provider.oidcSubject.setSubject sub found
  | .samlCallback q, doc => ∃ claims sub found, q.Brings claims sub ∧
    ssoAccount .samlSubject claims sub s.users = some found ∧
    doc = Provider.samlSubject.setSubject sub found

/-- The check of the document that the flow makes. -/
def Flow.Known (app : App) (c : Client) : Flow → UserDoc → Prop
  | .login payload, doc => Authentic app c payload.password doc
  | _, _ => True

/-- Accounts for which the check of the account, or the lack of it, does no harm. -/
def Flow.Admits : Flow → User → Prop
  | .verifyTotpSetup _, user => Active user
  | _, user => user.disabled = true ∨ user.status ≠ .invited

theorem isRefused_false_iff :
    isRefused user = false ↔ user.disabled = false ∧ user.status ∉ refusedStatuses := by
  unfold isRefused
  rw [Bool.or_eq_false_iff, decide_eq_false_iff_not]

theorem admits_iff : flow.Admits user ↔ (flow.Gate user → Active user) := by
  have hstatus : user.disabled = true ∨ user.status ≠ .invited ↔
      (isRefused user = false → Active user) := by
    unfold Active
    rw [isRefused_false_iff]
    cases user.disabled with
    | true => simp
    | false =>
      cases user.status with
      | invited => simp [refusedStatuses]
      | active => simp
      | suspended => simp [refusedStatuses]
      | deactivated => simp [refusedStatuses]
      | deleted => simp [refusedStatuses]
  cases flow with
  | login payload => exact hstatus
  | verifyTotpSetup payload => exact (true_imp_iff).symm
  | oidcCallback q => exact hstatus
  | samlCallback q => exact hstatus

theorem isAbout_unique {user' : User} (h : flow.IsAbout app c s user)
    (h' : flow.IsAbout app c s user') : user = user' := by
  cases flow with
  | login payload =>
    obtain ⟨t, h⟩ := h
    obtain ⟨t', h'⟩ := h'
    exact Option.some.inj (h.unique h').1
  | verifyTotpSetup payload =>
    obtain ⟨t, h⟩ := h
    obtain ⟨t', h'⟩ := h'
    exact Option.some.inj (h.unique h').1
  | oidcCallback q =>
    obtain ⟨claims, sub, t, ⟨v, hstate, hclaims, hsub⟩, h⟩ := h
    obtain ⟨claims', sub', t', ⟨v', hstate', hclaims', hsub'⟩, h'⟩ := h'
    obtain rfl := Option.some.inj (hstate.symm.trans hstate')
    obtain rfl := Except.ok.inj (hclaims.symm.trans hclaims')
    obtain rfl := Option.some.inj (hsub.symm.trans hsub')
    exact (h.unique h').1
  | samlCallback q =>
    obtain ⟨claims, sub, t, ⟨hclaims, hsub⟩, h⟩ := h
    obtain ⟨claims', sub', t', ⟨hclaims', hsub'⟩, h'⟩ := h'
    obtain rfl := Except.ok.inj (hclaims.symm.trans hclaims')
    obtain rfl := Option.some.inj (hsub.symm.trans hsub')
    exact (h.unique h').1

theorem isAbout_of_account {doc : UserDoc} (haccount : flow.Account s doc)
    (hread : docToUser app.decrypt doc = .ok user) (hknown : flow.Known app c doc) :
    flow.IsAbout app c s user := by
  cases flow with
  | login payload =>
    exact ⟨_, returns_authenticateUser.mpr ⟨doc, haccount, hknown.1, hknown.2, hread, rfl⟩⟩
  | verifyTotpSetup payload =>
    exact ⟨_, returns_getUserByUsername.mpr ⟨doc, haccount, hread, rfl⟩⟩
  | oidcCallback q =>
    obtain ⟨claims, sub, found, hq, hfound, rfl⟩ := haccount
    have hlater : ssoAccount .oidcSubject claims sub (validateState q.state s).1.users =
        some found := hfound
    obtain ⟨t, h⟩ := (returns_provisionSsoUser_of_account hlater).mpr hread
    exact ⟨claims, sub, t, hq, h⟩
  | samlCallback q =>
    obtain ⟨claims, sub, found, hq, hfound, rfl⟩ := haccount
    obtain ⟨t, h⟩ := (returns_provisionSsoUser_of_account hfound).mpr hread
    exact ⟨claims, sub, t, hq, h⟩

theorem account_of_isAbout (h : flow.IsAbout app c s user) :
    (∃ doc, flow.Account s doc ∧ docToUser app.decrypt doc = .ok user ∧ flow.Known app c doc) ∨
      Active user := by
  cases flow with
  | login payload =>
    obtain ⟨t, h⟩ := h
    obtain ⟨doc, hdoc, hopen, hright, hread, -⟩ := returns_authenticateUser.mp h
    exact Or.inl ⟨doc, hdoc, hread, hopen, hright⟩
  | verifyTotpSetup payload =>
    obtain ⟨t, h⟩ := h
    obtain ⟨doc, hdoc, hread, -⟩ := returns_getUserByUsername.mp h
    exact Or.inl ⟨doc, hdoc, hread, trivial⟩
  | oidcCallback q =>
    obtain ⟨claims, sub, t, hq, h⟩ := h
    cases hfound : ssoAccount .oidcSubject claims sub (validateState q.state s).1.users with
    | none => exact Or.inr (active_of_provisionSsoUser hfound h)
    | some found =>
      have hread := (returns_provisionSsoUser_of_account hfound).mp ⟨t, h⟩
      exact Or.inl ⟨_, ⟨claims, sub, found, hq, hfound, rfl⟩, hread, trivial⟩
  | samlCallback q =>
    obtain ⟨claims, sub, t, hq, h⟩ := h
    cases hfound : ssoAccount .samlSubject claims sub s.users with
    | none => exact Or.inr (active_of_provisionSsoUser hfound h)
    | some found =>
      have hread := (returns_provisionSsoUser_of_account hfound).mp ⟨t, h⟩
      exact Or.inl ⟨_, ⟨claims, sub, found, hq, hfound, rfl⟩, hread, trivial⟩

/-- Invited users get through three of the flows, and anyone through the set-up. -/
theorem onlyActive_iff (app : App) (c : Client) (s : State) (flow : Flow) :
    OnlyActive app c s flow ↔
      ∀ doc user, flow.Account s doc → docToUser app.decrypt doc = .ok user →
        flow.Known app c doc → flow.Passes app c s user → flow.Admits user := by
  constructor
  · intro honly doc user haccount hread hknown hpasses
    rw [admits_iff]
    intro hgate
    have habout := isAbout_of_account haccount hread hknown
    obtain ⟨reply, s', h⟩ := handle_iff.mpr ⟨user, habout, hgate, hpasses⟩
    exact honly reply s' user h habout
  · intro hall reply s' user h habout
    obtain ⟨user', habout', hgate, hpasses⟩ := handle_iff.mp ⟨reply, s', h⟩
    obtain rfl := isAbout_unique habout habout'
    rcases account_of_isAbout habout with ⟨doc, haccount, hread, hknown⟩ | hactive
    · exact admits_iff.mp (hall doc user haccount hread hknown hpasses) hgate
    · exact hactive

/-- A hash is the password itself, and every secret has the code `123456`. -/
def sampleApp : App where
  service := sampleService
  decrypt := some
  verifyPassword plain hashed := some (plain == hashed)
  dummyBcryptHash := "dummy"
  verifyTotp _ _ code := some (code == "123456")
  lower := id
  accountLockoutThreshold := 5
  accountLockoutDurationMinutes := 15
  isOnprem := true
  oidcEnabled := false
  oidcDefaultRole := "viewer"
  samlEnabled := false
  samlAvailable := false
  samlDefaultRole := "viewer"

def sampleClient : Client where
  limited := false
  checkedAt := 0
  lockedAt := 0
  verifiedAt := 0
  ipAddress := "127.0.0.1"
  userAgent := "curl"
  draw := ⟨0, "first", "family"⟩
  sessionId := "session"
  accessId := "access"

def disabledUser : UserDoc where
  id := "1"
  username := "alice"
  email := "alice@example.com"
  disabled := some true
  status := some "deactivated"
  hashedPassword := some "Secret123"
  totpSecret := some "ABCD"

def invitedUser : UserDoc where
  id := "1"
  username := "alice"
  email := "alice@example.com"
  disabled := some false
  status := some "invited"
  hashedPassword := some "Secret123"

def stateOf (doc : UserDoc) : State := ⟨[doc], .empty, true, [], []⟩

/-- The set-up lets a disabled user in, and the login an invited one. -/
theorem blocked_users_obtain_tokens :
    ¬OnlyActive sampleApp sampleClient (stateOf disabledUser)
        (.verifyTotpSetup ⟨"alice", "Secret123", "123456"⟩) ∧
      ¬OnlyActive sampleApp sampleClient (stateOf invitedUser)
        (.login ⟨"alice", "Secret123", none⟩) := by
  constructor
  · intro honly
    have hactive := honly _ _ _ rfl ⟨_, rfl⟩
    exact absurd hactive.1 (by decide)
  · intro honly
    have hactive := honly _ _ _ rfl ⟨_, rfl⟩
    exact absurd hactive.2 (by decide)

end Sentora.Auth.Logins
