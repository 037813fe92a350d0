import Sentora.Auth.Lifetime
import Sentora.Tenancy.Middleware

/-!
# Identity across rotations

Whether a rotated access token says what the one of the login says.

A rotation rebuilds the claims from the refresh token and the session of its
family.  The user and the role are in the refresh token, the session is found
again, and the tenant is in neither: a login writes it into the access token
alone.
-/

namespace Sentora.Tenancy

open Auth Lib Process

section Chain

variable (service : Service) (payload : String → Option Claims) (login : LoginArgs)
  (first : TokenPair) (start : AuthStore)

/-- After these events the pair is the last of successive rotations that begin
with the first of the login, each while the session is active.  `last` is the last
rotation. -/
inductive Successive : List SessionEvent → Option RotateArgs → TokenPair → Prop where
  | login : Successive [] none first
  | event {events : List SessionEvent} {last : Option RotateArgs} {pair : TokenPair}
      (h : Successive events last pair) (event : SessionEvent) :
      Successive (events ++ [event]) last pair
  | rotation {events : List SessionEvent} {last : Option RotateArgs} {pair next : TokenPair}
      (h : Successive events last pair) (a : RotateArgs) (htoken : a.token = pair.refreshToken)
      (hactive : HasSession login (runEvents service events start))
      (hok : ((rotateRefreshToken service a).run (runEvents service events start)).2 = .ok next) :
      Successive (events ++ [.call (.rotate a)]) (some a) next

def SameIdentity (token token' : String) : Prop :=
  ∃ c c', payload token = some c ∧ payload token' = some c' ∧ c.sub = c'.sub ∧ c.role = c'.role ∧
    c.sid = c'.sid ∧ c.tenantId = c'.tenantId

/-- The middleware lets the one through to the tenant if it lets the other. -/
def SameBinding (decode : Decoder) (token token' : String) : Prop :=
  ∀ now slug p p', verifyToken decode now token = .ok p → verifyToken decode now token' = .ok p' →
    bindingAllows slug p = bindingAllows slug p'

end Chain

section Rotations

variable {service : Service} {payload : String → Option Claims} {famOf : String → String}
  {login : LoginArgs} {start : AuthStore}
variable {events : List SessionEvent} {pair : TokenPair} {a : RotateArgs}

theorem checkRefreshToken_spec {c : RefreshClaims} {claims : Claims}
    (hdecode : ∀ now t c, service.decode now t = .ok c → payload t = some c)
    (hclaims : payload a.token = some claims) (hc : checkRefreshToken service a = .ok c) :
    present claims.sub = some c.username ∧ present claims.role = some c.role ∧
      present claims.fam = some c.familyId := by
  unfold checkRefreshToken at hc
  split at hc
  · cases hc
  · rename_i decoded heq
    have hsame : decoded = claims := by
      have hpayload := hdecode _ _ _ heq
      rw [hclaims] at hpayload
      exact (Option.some.inj hpayload).symm
    rw [hsame] at hc
    split at hc
    · cases hc
    · split at hc
      · rename_i hfam hsub hrole
        cases hc
        exact ⟨hsub, hrole, hfam⟩
      · cases hc

theorem eq_of_present {v : Option String} {x : String} (h : present v = some x) : v = some x :=
  (Option.filter_eq_some_iff.mp h).1

theorem rotation_spec (hdecode : ∀ now t c, service.decode now t = .ok c → payload t = some c)
    {draw : Draw} {username role family : String} {s : AuthStore}
    {next : TokenPair}
    (hclaims : payload a.token = some (refreshClaims service draw username role family))
    (hok : ((rotateRefreshToken service a).run s).2 = .ok next) :
    ∃ tokenId, next = rotatedPair service a ⟨tokenId, family, username, role⟩ s := by
  cases hc : checkRefreshToken service a with
  | error e =>
    unfold rotateRefreshToken at hok
    rw [hc] at hok
    cases hok
  | ok c =>
    obtain ⟨-, hpair⟩ := (rotate_ok_iff hc next).mp hok
    obtain ⟨hsub, hrole, hfam⟩ := checkRefreshToken_spec hdecode hclaims hc
    have husername : username = c.username := Option.some.inj (eq_of_present hsub)
    have hsame : role = c.role := Option.some.inj (eq_of_present hrole)
    have hfamily : family = c.familyId := Option.some.inj (eq_of_present hfam)
    refine ⟨c.tokenId, ?_⟩
    rw [husername, hsame, hfamily]
    exact hpair

theorem refreshToken_claims (hjwt : ∀ c, payload (service.encode c) = some c)
    (hdecode : ∀ now t c, service.decode now t = .ok c → payload t = some c)
    {last : Option RotateArgs}
    (h : Successive service login (loginPair service login) start events last pair) :
    ∃ draw, payload pair.refreshToken =
      some (refreshClaims service draw login.username login.role login.draw.family) := by
  induction h with
  | login => exact ⟨login.draw, hjwt _⟩
  | event _ _ ih => exact ih
  | @rotation events last pair next _ a htoken _ hok ih =>
    obtain ⟨draw, hclaims⟩ := ih
    rw [← htoken] at hclaims
    obtain ⟨tokenId, hpair⟩ := rotation_spec hdecode hclaims hok
    refine ⟨a.draw, ?_⟩
    rw [hpair]
    exact hjwt _

def accessClaims (service : Service) (now : Nat) (accessId username role : String)
    (sessionId tenantId : Option String) : Claims where
  sub := some username
  role := some role
  type := some "access"
  jti := some accessId
  iss := some "sentora"
  aud := some "sentora-api"
  sid := present sessionId
  tenantId := present tenantId
  exp := some (now + minutes service.jwtAccessExpireMinutes)

theorem accessToken_claims (hjwt : ∀ c, payload (service.encode c) = some c)
    (hdecode : ∀ now t c, service.decode now t = .ok c → payload t = some c)
    (hdocs : Docs service famOf login start) (hlawful : Lawful service famOf login events)
    (h : Successive service login (loginPair service login) start events (some a) pair) :
    payload pair.accessToken = some (accessClaims service a.draw.now a.accessId login.username
      login.role ((present a.sessionId).or (some login.sessionId)) none) := by
  generalize hlast : some a = last at h
  induction h with
  | login => cases hlast
  | event _ event ih => exact ih (fun c hmem => hlawful c (List.mem_append_left _ hmem)) hlast
  | @rotation events last pair next hbefore b htoken hactive hok =>
    have hrun : Lawful service famOf login events :=
      fun c hmem => hlawful c (List.mem_append_left _ hmem)
    obtain ⟨draw, hclaims⟩ := refreshToken_claims hjwt hdecode hbefore
    rw [← htoken] at hclaims
    obtain ⟨tokenId, hpair⟩ := rotation_spec hdecode hclaims hok
    have hsession := activeSessionOf_eq (docs_runEvents hrun hdocs).sessions hactive
    rw [hpair, Option.some.inj hlast, ← hsession]
    exact hjwt _

theorem pair_of_no_rotation {first : TokenPair}
    (h : Successive service login first start events none pair) : pair = first := by
  generalize hlast : (none : Option RotateArgs) = last at h
  induction h with
  | login => rfl
  | event _ _ ih => exact ih hlast
  | rotation => cases hlast

end Rotations

section Identity

variable {service : Service} {payload : String → Option Claims} {login : LoginArgs}

theorem sameBinding_of_sameIdentity {decode : Decoder}
    (hdecode : ∀ now t c, decode now t = .ok c → payload t = some c) {token token' : String}
    (h : SameIdentity payload token token') : SameBinding decode token token' := by
  have hverified : ∀ now t p c, payload t = some c → verifyToken decode now t = .ok p →
      some p.role = c.role ∧ p.tenantId = c.tenantId := by
    intro now t p c hc hp
    unfold verifyToken at hp
    split at hp
    · cases hp
    · rename_i decoded heq
      have hsame : decoded = c := by
        have hpayload := hdecode _ _ _ heq
        rw [hc] at hpayload
        exact (Option.some.inj hpayload).symm
      rw [hsame] at hp
      split at hp
      · cases hp
      · split at hp
        · rename_i hrole
          cases hp
          exact ⟨(eq_of_present hrole).symm, rfl⟩
        · cases hp
  obtain ⟨c, c', hc, hc', -, hrole, -, htenant⟩ := h
  intro now slug p p' hp hp'
  obtain ⟨hprole, hptenant⟩ := hverified now token p c hc hp
  obtain ⟨hprole', hptenant'⟩ := hverified now token' p' c' hc' hp'
  have hsame : p.role = p'.role :=
    Option.some.inj (hprole.trans (hrole.trans hprole'.symm))
  unfold bindingAllows
  rw [hsame, hptenant, hptenant', htenant]

theorem present_or_eq_iff (given : Option String) (sessionId : String) :
    present ((present given).or (some sessionId)) = present (some sessionId) ↔
      ∀ x, present given = some x → x = sessionId := by
  cases hgiven : present given with
  | none =>
    rw [Option.none_or]
    exact ⟨fun _ x hx => absurd hx (Option.some_ne_none x).symm, fun _ => rfl⟩
  | some x =>
    rw [Option.some_or, present_of_eq_some hgiven]
    constructor
    · intro h y hy
      rw [← Option.some.inj hy]
      exact (Option.some.inj (eq_of_present h.symm)).symm
    · intro h
      rw [← h x rfl, present_of_eq_some hgiven]

end Identity

/-- At any point of a chain of rotations the access token carries the identity
of the login's, with which the middleware decides as before, exactly if there was
no rotation yet, or the login's token carries no tenant and the last rotation was
given no session but its. -/
theorem sameIdentity_iff (service : Service) (payload : String → Option Claims)
    (hjwt : ∀ c, payload (service.encode c) = some c)
    (hdecode : ∀ now t c, service.decode now t = .ok c → payload t = some c)
    (famOf : String → String) (login : LoginArgs)
    (hlogin : famOf login.draw.tokenId = login.draw.family) (s : AuthStore)
    (hs : Consistent famOf s) (hunknown : Unknown login s) (first : TokenPair)
    (hok : ((issueTokensWithSession service login).run s).2 = .ok first)
    (events : List SessionEvent) (hlawful : Lawful service famOf login events)
    (last : Option RotateArgs) (pair : TokenPair)
    (hchain : Successive service login first ((issueTokensWithSession service login).run s).1
      events last pair) :
    (SameIdentity payload first.accessToken pair.accessToken ↔
      ∀ a, last = some a → present login.boundTenant = none ∧
        ∀ x, present a.sessionId = some x → x = login.sessionId) ∧
    (SameIdentity payload first.accessToken pair.accessToken →
      ∀ decode : Decoder, (∀ now t c, decode now t = .ok c → payload t = some c) →
        SameBinding decode first.accessToken pair.accessToken) := by
  refine ⟨?_, fun h decode hd => sameBinding_of_sameIdentity hd h⟩
  obtain ⟨-, hpair⟩ := login_ok hok
  have hfirst : payload first.accessToken =
      some (accessClaims service login.draw.now login.accessId login.username login.role
        (some login.sessionId) login.boundTenant) := by
    rw [hpair]
    exact hjwt _
  cases last with
  | none =>
    rw [pair_of_no_rotation hchain]
    exact ⟨fun _ a ha => absurd ha (Option.some_ne_none a).symm,
      fun _ => ⟨_, _, hfirst, hfirst, rfl, rfl, rfl, rfl⟩⟩
  | some a =>
    rw [hpair] at hchain
    have hlast := accessToken_claims hjwt hdecode (docs_login hlogin hs hunknown hok).1 hlawful
      hchain
    constructor
    · rintro ⟨c, c', hc, hc', -, -, hsid, htenant⟩ b hb
      rw [hfirst] at hc
      rw [hlast] at hc'
      rw [← Option.some.inj hc, ← Option.some.inj hc'] at hsid htenant
      rw [← Option.some.inj hb]
      exact ⟨htenant, (present_or_eq_iff _ _).mp hsid.symm⟩
    · intro h
      obtain ⟨htenant, hgiven⟩ := h a rfl
      exact ⟨_, _, hfirst, hlast, rfl, rfl, ((present_or_eq_iff _ _).mpr hgiven).symm, htenant⟩

/-- `sampleLogin` of a user of a tenant, or of none. -/
def loginOf (tenantId : Option String) : LoginArgs := { sampleLogin with tenantId := tenantId }

theorem plainService_decode {lifetimeDays now : Nat} {token : String} {c : Claims}
    (h : (plainService lifetimeDays).decode now token = .ok c) : claimsOf token = some c := by
  unfold plainService at h
  dsimp only at h
  cases hclaims : claimsOf token with
  | none =>
    rw [hclaims] at h
    cases h
  | some c' =>
    rw [hclaims] at h
    dsimp only at h
    split at h
    · cases h
    · rw [Except.ok.inj h]

section Sample

variable (tenantId : Option String)

theorem login_of_empty :
    ((issueTokensWithSession (plainService 30) (loginOf tenantId)).run .empty).2 =
      .ok (loginPair (plainService 30) (loginOf tenantId)) := rfl

theorem successive_rotation :
    let start := ((issueTokensWithSession (plainService 30) (loginOf tenantId)).run .empty).1
    Successive (plainService 30) (loginOf tenantId) (loginPair (plainService 30) (loginOf tenantId))
      start [.call (.rotate (plainRotation 30 (days 1)))] (some (plainRotation 30 (days 1)))
      (rotatedPair (plainService 30) (plainRotation 30 (days 1))
        ⟨"first", "family", "alice", "viewer"⟩ start) := by
  intro start
  have hstate : start = ⟨[drawnToken (plainService 30) sampleLogin.draw "alice" "viewer" "family"],
      [drawnSession (plainService 30) (loginOf tenantId) "family"]⟩ :=
    (login_ok (login_of_empty tenantId)).1
  have hcheck : checkRefreshToken (plainService 30) (plainRotation 30 (days 1)) = _ :=
    plainRotation_claims (by decide)
  refine .rotation (.login) (plainRotation 30 (days 1)) rfl ?_
    ((rotate_ok_iff hcheck _).mpr ⟨?_, rfl⟩)
  · show HasSession (loginOf tenantId) start
    rw [hstate]
    exact ⟨_, List.mem_cons_self, rfl, rfl⟩
  · show Spendable start _ _
    rw [hstate]
    refine ⟨⟨_, List.mem_cons_self, rfl, rfl⟩, fun d hd => ?_⟩
    rw [List.mem_singleton.mp hd]
    show "first" ≠ "second"
    decide

theorem lawful_rotation :
    Lawful (plainService 30) (fun _ => "family") (loginOf tenantId)
      [.call (.rotate (plainRotation 30 (days 1)))] := by
  intro c hmem
  rw [SessionEvent.call.inj (List.mem_singleton.mp hmem)]
  exact ⟨plainRotation_genuine (by decide), trivial⟩

theorem unknown_empty : Unknown (loginOf tenantId) .empty :=
  ⟨List.forall_mem_nil _, List.forall_mem_nil _⟩

end Sample

/-- A user of no tenant, with no tenant in the request. -/
theorem rotation_without_tenant_same :
    SameIdentity claimsOf (loginPair (plainService 30) (loginOf none)).accessToken
      (rotatedPair (plainService 30) (plainRotation 30 (days 1))
        ⟨"first", "family", "alice", "viewer"⟩
        ((issueTokensWithSession (plainService 30) (loginOf none)).run .empty).1).accessToken :=
  (sameIdentity_iff (plainService 30) claimsOf claimsOf_text (fun _ _ _ => plainService_decode)
    (fun _ => "family") (loginOf none) rfl .empty (List.forall_mem_nil _)
    (unknown_empty none) _ (login_of_empty none) _ (lawful_rotation none) _ _
    (successive_rotation none)).1.mpr fun a ha => by
      rw [← Option.some.inj ha]
      exact ⟨rfl, fun x hx => absurd hx (Option.some_ne_none x).symm⟩

/-- A user of Acme loses the tenant with the first rotation. -/
theorem rotation_drops_tenant :
    ¬∀ (service : Service) (payload : String → Option Claims),
      (∀ c, payload (service.encode c) = some c) →
      (∀ now t c, service.decode now t = .ok c → payload t = some c) →
      ∀ (famOf : String → String) (login : LoginArgs),
      famOf login.draw.tokenId = login.draw.family → ∀ s : AuthStore, Consistent famOf s →
      Unknown login s → ∀ first : TokenPair,
      ((issueTokensWithSession service login).run s).2 = .ok first →
      ∀ events : List SessionEvent, Lawful service famOf login events →
      ∀ (last : Option RotateArgs) (pair : TokenPair),
      Successive service login first ((issueTokensWithSession service login).run s).1 events last
        pair →
      SameIdentity payload first.accessToken pair.accessToken := by
  intro hclaim
  obtain ⟨c, c', hc, hc', -, -, -, htenant⟩ := hclaim (plainService 30) claimsOf claimsOf_text
    (fun _ _ _ => plainService_decode) (fun _ => "family") (loginOf (some "acme")) rfl .empty
    (List.forall_mem_nil _) (unknown_empty _) _ (login_of_empty _) _
    (lawful_rotation _) _ _ (successive_rotation _)
  have hfirst : claimsOf (loginPair (plainService 30) (loginOf (some "acme"))).accessToken =
      some (accessClaims (plainService 30) 0 "access" "alice" "viewer" (some "session")
        (some "acme")) := claimsOf_text _
  have hlast : ∃ s, claimsOf (rotatedPair (plainService 30) (plainRotation 30 (days 1))
      ⟨"first", "family", "alice", "viewer"⟩
      ((issueTokensWithSession (plainService 30)
        (loginOf (some "acme"))).run .empty).1).accessToken =
        some (accessClaims (plainService 30) (days 1) "rotated" "alice" "viewer" s none) :=
    ⟨_, claimsOf_text _⟩
  obtain ⟨s, hlast⟩ := hlast
  rw [hfirst] at hc
  rw [hlast] at hc'
  rw [← Option.some.inj hc, ← Option.some.inj hc'] at htenant
  cases htenant

end Sentora.Tenancy
