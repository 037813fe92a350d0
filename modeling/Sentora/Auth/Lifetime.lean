import Sentora.Auth.Revocation
import Sentora.Lib.Json

/-!
# Lifetime of sessions

Whether a session bounds the access tokens minted for its family.

A rotation looks the session up by the family of its token.  Every revocation
of the session deletes the tokens of the family too, so that nothing is left to
rotate.  The end of its lifetime does not: the tokens outlive it, and what a
rotation mints from them is past the session or bears none.
-/

namespace Sentora.Auth

open Lib Process

/-- `cleanup_expired_sessions`, with how many sessions it deletes. -/
def cleanupExpiredSessions (now : Nat) (s : AuthStore) : AuthStore × Nat :=
  let marked := s.sessions.map fun d =>
    if d.isActive && decide (d.expiresAt < now) then revoked now "expired" d else d
  let old := fun d : SessionDoc =>
    !d.isActive && d.revokedAt.any (fun at' => decide (at' + days 30 < now))
  ({ s with sessions := marked.filter (fun d => !old d) }, marked.countP old)

/-- The deletion of expired documents under the indexes on `expires_at`, of
those picked. -/
def expire (pickToken : TokenDoc → Bool) (pickSession : SessionDoc → Bool) (now : Nat)
    (s : AuthStore) : AuthStore where
  refreshTokens := s.refreshTokens.filter fun d => !(pickToken d && decide (d.expiresAt ≤ now))
  sessions := s.sessions.filter fun d => !(pickSession d && decide (d.expiresAt ≤ now))

inductive SessionEvent where
  | call (c : AuthCall)
  | cleanup (now : Nat)
  | expire (pickToken : TokenDoc → Bool) (pickSession : SessionDoc → Bool) (now : Nat)

def SessionEvent.apply (service : Service) (s : AuthStore) : SessionEvent → AuthStore
  | .call c => ((program service c).run s).1
  | .cleanup now => (cleanupExpiredSessions now s).1
  | .expire pickToken pickSession now => Auth.expire pickToken pickSession now s

def runEvents (service : Service) (events : List SessionEvent) (s : AuthStore) : AuthStore :=
  events.foldl (SessionEvent.apply service) s

def AuthCall.clock : AuthCall → Option Nat
  | .rotate a => some a.draw.now
  | .login a => some a.draw.now
  | .revokeSession _ _ now => some now
  | .revokeAllUserSessions _ _ _ now => some now
  | .revokeUserTokens _ => none
  | .revokeFamily _ => none

def SessionEvent.clock : SessionEvent → Option Nat
  | .call c => c.clock
  | .cleanup now => some now
  | .expire _ _ now => some now

section Login

variable (service : Service) (payload : String → Option Claims) (famOf : String → String)
  (login : LoginArgs)

def sessionEnd : Nat := login.draw.now + days service.sessionMaxLifetimeDays

/-- Other logins draw a family and a session of their own. -/
def Apart (call : AuthCall) : Prop :=
  match call with
  | .login a => a.draw.family ≠ login.draw.family ∧ a.sessionId ≠ login.sessionId
  | _ => True

/-- What the login draws is new to the store. -/
structure Unknown (s : AuthStore) : Prop where
  family : ∀ d ∈ s.sessions, d.refreshTokenFamily ≠ login.draw.family
  session : ∀ d ∈ s.sessions, d.sessionId ≠ login.sessionId

/-- An access token that a rotation of the family mints carries the session,
which is active and not past its end. -/
def Bounded (s : AuthStore) (a : RotateArgs) : Prop :=
  ∀ c p, checkRefreshToken service a = .ok c → c.familyId = login.draw.family →
    ((rotateRefreshToken service a).run s).2 = .ok p →
      (∃ claims, payload p.accessToken = some claims ∧ claims.sid = some login.sessionId) ∧
        ∃ d ∈ s.sessions, d.sessionId = login.sessionId ∧ d.isActive = true ∧
          a.draw.now < d.expiresAt

/-- A token of the family is spent before the end of the session, and for no
session but it. -/
def InTime (s : AuthStore) (a : RotateArgs) : Prop :=
  ∀ c, checkRefreshToken service a = .ok c → c.familyId = login.draw.family →
    Spendable s c a.draw →
      a.draw.now < sessionEnd service login ∧
        ∀ x, present a.sessionId = some x → x = login.sessionId

/-- The session of the family, and no other document of either name. -/
structure Tied (d : SessionDoc) : Prop where
  family : d.sessionId = login.sessionId ↔ d.refreshTokenFamily = login.draw.family
  ends : d.sessionId = login.sessionId → d.expiresAt = sessionEnd service login
  username : d.sessionId = login.sessionId → d.username = login.username

abbrev Docs : AuthStore → Prop :=
  EachDoc (fun d => famOf d.tokenId = d.familyId) (Tied service login)

def HasSession (s : AuthStore) : Prop :=
  ∃ d ∈ s.sessions, d.sessionId = login.sessionId ∧ d.isActive = true

def Covered (s : AuthStore) : Prop := NoTokens login.draw.family s ∨ HasSession login s

end Login

section Revocations

variable {service : Service} {famOf : String → String} {login : LoginArgs} {s : AuthStore}
variable {now : Nat} {α : Type}

theorem HasSession.growth {T : TokenDoc → Prop} {S : SessionDoc → Prop}
    {p : Process AuthStore AuthOp α} (hp : Updates (Growth T S) p) (h : HasSession login s) :
    HasSession login (p.run s).1 := by
  obtain ⟨d, hd, hsession⟩ := h
  have hsteady : Steady (fun s' => d ∈ s'.sessions) p :=
    hp.steady fun _ hu _ hmem => hu.sessions hmem
  exact ⟨d, hsteady.run hd, hsession⟩

theorem mem_updateFirst_of_not {query : α → Bool} {update : α → α} {l : List α} {d : α}
    (hd : d ∈ l) (h : ¬query d = true) : d ∈ updateFirst query update l := by
  induction l with
  | nil => exact absurd hd List.not_mem_nil
  | cons e l ih =>
    rw [updateFirst]
    by_cases hq : query e = true
    · rw [if_pos hq]
      rcases List.mem_cons.mp hd with hd | hd
      · rw [hd] at h
        exact absurd hq h
      · exact List.mem_cons_of_mem _ hd
    · rw [if_neg hq]
      rcases List.mem_cons.mp hd with hd | hd
      · rw [hd]
        exact List.mem_cons_self
      · exact List.mem_cons_of_mem _ (ih hd)

theorem noTokens_deleteTokens {f : String} {query : TokenDoc → Bool}
    (h : ∀ d : TokenDoc, d.familyId = f → query d = true) (s : AuthStore) :
    NoTokens f (deleteTokens query s).1 := by
  intro d hd hfam
  have hkept := (List.mem_filter.mp hd).2
  rw [h d hfam] at hkept
  cases hkept

theorem noTokens_revokeSession (hf : login.draw.family ≠ "")
    (htied : ∀ d ∈ s.sessions, Tied service login d) {reason : String}
    (hok : ((revokeSession login.sessionId reason now).run s).2 = true) :
    NoTokens login.draw.family ((revokeSession login.sessionId reason now).run s).1 := by
  unfold revokeSession at hok ⊢
  rw [run_bind, run_atomic] at hok ⊢
  cases hfound : (deactivateSession login.sessionId now reason s).2 with
  | none =>
    rw [hfound] at hok
    cases hok
  | some doc =>
    obtain ⟨hmem, hquery⟩ := mem_of_find? hfound
    rw [Bool.and_eq_true, beq_iff_eq] at hquery
    have hfamily : doc.refreshTokenFamily = login.draw.family :=
      (htied doc hmem).family.mp hquery.1
    dsimp only
    rw [hfamily, if_pos hf, run_bind]
    exact noTokens_deleteTokens (fun d hd => beq_iff_eq.mpr hd) _

theorem NoTokens.run {f : String} {p : Process AuthStore AuthOp α}
    (hp : Updates (StoreUpdate (fun d => d.familyId ≠ f) (fun _ => True)) p) (h : NoTokens f s) :
    NoTokens f (p.run s).1 := by
  have hdocs : EachDoc (fun d => d.familyId ≠ f) (fun _ => True) s := ⟨h, fun _ _ => trivial⟩
  have hsteady : Steady (EachDoc (fun d => d.familyId ≠ f) (fun _ => True)) p :=
    hp.steady fun _ hu _ hs => hs.update (fun _ hd => hd) (fun _ _ _ _ => trivial) hu
  exact (hsteady.run hdocs).tokens

theorem run_revokeSession_sessions (sessionId reason : String) (now : Nat) :
    ((revokeSession sessionId reason now).run s).1.sessions =
      (deactivateSession sessionId now reason s).1.sessions := by
  unfold revokeSession
  rw [run_bind, run_atomic]
  cases (deactivateSession sessionId now reason s).2 with
  | none => rfl
  | some doc =>
    dsimp only
    split
    · rw [run_bind]
      rfl
    · rfl

theorem revokeSession_ok {reason : String} (h : HasSession login s) :
    ((revokeSession login.sessionId reason now).run s).2 = true := by
  obtain ⟨d, hd, hid, hactive⟩ := h
  unfold revokeSession
  rw [run_bind, run_atomic]
  cases hfound : (deactivateSession login.sessionId now reason s).2 with
  | none =>
    have hnone := List.find?_eq_none.mp hfound d hd
    rw [hid, hactive] at hnone
    simp at hnone
  | some doc =>
    dsimp only
    split <;> rfl

theorem covered_revokeSession (hf : login.draw.family ≠ "")
    (htied : ∀ d ∈ s.sessions, Tied service login d) (h : Covered login s)
    (sessionId reason : String) (now : Nat) :
    Covered login ((revokeSession sessionId reason now).run s).1 := by
  rcases h with hnone | hhas
  · exact Or.inl (hnone.run (updates_revokeSession sessionId reason now))
  · by_cases hid : sessionId = login.sessionId
    · rw [hid]
      exact Or.inl (noTokens_revokeSession hf htied (revokeSession_ok hhas))
    · obtain ⟨d, hd, hsession, hactive⟩ := hhas
      refine Or.inr ⟨d, ?_, hsession, hactive⟩
      rw [run_revokeSession_sessions]
      apply mem_updateFirst_of_not hd
      rw [hsession, Bool.and_eq_true, beq_iff_eq]
      exact fun hquery => hid hquery.1.symm

theorem run_revokeAllUserSessions_sessions (username reason : String) (exclude : Option String)
    (now : Nat) :
    ((revokeAllUserSessions username reason exclude now).run s).1.sessions =
      (deactivateSessions ((sessionsToRevoke username exclude s).map SessionDoc.sessionId) now
        reason s).1.sessions := by
  unfold revokeAllUserSessions
  rw [run_bind, run_read]
  by_cases hnil : (sessionsToRevoke username exclude s).map SessionDoc.sessionId = []
  · rw [if_pos hnil, hnil]
    show s.sessions = s.sessions.map _
    simp only [List.not_mem_nil, if_false, List.map_id']
  · rw [if_neg hnil, run_bind, run_atomic]
    dsimp only
    split
    · rw [run_bind]
      rfl
    · rfl

theorem noTokens_revokeAllUserSessions (hf : login.draw.family ≠ "")
    (htied : ∀ d ∈ s.sessions, Tied service login d) {username reason : String}
    {exclude : Option String}
    (hfound : login.sessionId ∈ (sessionsToRevoke username exclude s).map SessionDoc.sessionId) :
    NoTokens login.draw.family
      ((revokeAllUserSessions username reason exclude now).run s).1 := by
  obtain ⟨e, he, hid⟩ := List.mem_map.mp hfound
  have hfamily : e.refreshTokenFamily = login.draw.family :=
    (htied e (List.mem_filter.mp he).1).family.mp hid
  have hmem : login.draw.family ∈
      ((sessionsToRevoke username exclude s).map SessionDoc.refreshTokenFamily).filter
        (fun f => f ≠ "") :=
    List.mem_filter.mpr ⟨List.mem_map.mpr ⟨e, he, hfamily⟩, decide_eq_true hf⟩
  unfold revokeAllUserSessions
  rw [run_bind, run_read, if_neg (List.ne_nil_of_mem hfound), run_bind, run_atomic]
  dsimp only
  rw [if_pos (List.ne_nil_of_mem hmem), run_bind]
  refine noTokens_deleteTokens (fun d hd => ?_) _
  rw [hd]
  exact List.contains_iff_mem.mpr hmem

theorem covered_revokeAllUserSessions (hf : login.draw.family ≠ "")
    (htied : ∀ d ∈ s.sessions, Tied service login d) (h : Covered login s)
    (username reason : String) (exclude : Option String) (now : Nat) :
    Covered login ((revokeAllUserSessions username reason exclude now).run s).1 := by
  rcases h with hnone | ⟨d, hd, hsession, hactive⟩
  · exact Or.inl (hnone.run (updates_revokeAllUserSessions username reason exclude now))
  · by_cases hfound :
        login.sessionId ∈ (sessionsToRevoke username exclude s).map SessionDoc.sessionId
    · exact Or.inl (noTokens_revokeAllUserSessions hf htied hfound)
    · refine Or.inr ⟨d, ?_, hsession, hactive⟩
      rw [run_revokeAllUserSessions_sessions]
      refine List.mem_map.mpr ⟨d, hd, ?_⟩
      rw [hsession, if_neg hfound]

end Revocations

section Events

variable {service : Service} {famOf : String → String} {login : LoginArgs} {s : AuthStore}
  {call : AuthCall} {event : SessionEvent}

theorem Tied.revoked {d : SessionDoc} (h : Tied service login d) (now : Nat) (reason : String) :
    Tied service login (Auth.revoked now reason d) := ⟨h.family, h.ends, h.username⟩

theorem Apart.inserts (hgen : Genuine service famOf call) (h : Apart login call) :
    Inserts service (fun d => famOf d.tokenId = d.familyId) (Tied service login) call := by
  cases call with
  | rotate a => exact fun c hc => (hgen c hc).2
  | login a =>
    obtain ⟨hfamily, hsession⟩ := h
    refine ⟨hgen, ?_, fun heq => absurd heq hsession, fun heq => absurd heq hsession⟩
    exact ⟨fun heq => absurd heq hsession, fun heq => absurd heq hfamily⟩
  | _ => trivial

theorem Apart.notDrawn (h : Apart login call) : NotDrawn login.draw.family call := by
  cases call with
  | login a => exact h.1
  | _ => trivial

theorem docs_call (hgen : Genuine service famOf call) (hapart : Apart login call)
    (h : Docs service famOf login s) :
    Docs service famOf login ((program service call).run s).1 := by
  have hsteady : Steady (Docs service famOf login) (program service call) :=
    (updates_program (hapart.inserts hgen)).steady fun _ hu _ hs =>
      hs.update (fun _ hd => hd) (fun now reason _ hd => hd.revoked now reason) hu
  exact hsteady.run h

theorem covered_call (hf : login.draw.family ≠ "") (hgen : Genuine service famOf call)
    (hapart : Apart login call) (hdocs : Docs service famOf login s) (h : Covered login s) :
    Covered login ((program service call).run s).1 := by
  have hdead : NoTokens login.draw.family s →
      NoTokens login.draw.family ((program service call).run s).1 := by
    intro hnone
    have hs : Dead famOf login.draw.family s := fun d hd => ⟨hdocs.tokens d hd, hnone d hd⟩
    exact fun d hd => (((keeps_program hgen hapart.notDrawn).run hs).1 d hd).2
  have hgrows : Updates (Growth (fun _ => True) fun _ => True) (program service call) →
      Covered login ((program service call).run s).1 := by
    intro hgrowth
    rcases h with h | h
    · exact Or.inl (hdead h)
    · exact Or.inr (h.growth hgrowth)
  cases call with
  | rotate a =>
    refine hgrows (Updates.bind ?_ fun _ => trivial)
    exact (updates_rotate fun _ _ => trivial).mono fun _ hu => .tokens hu
  | login a => exact hgrows (Updates.bind (updates_issueTokensWithSession trivial trivial)
      fun _ => trivial)
  | revokeUserTokens username =>
    refine hgrows (Updates.bind ?_ fun _ => trivial)
    exact (updates_deleteTokens _).mono fun _ hu => .tokens hu
  | revokeFamily token =>
    refine hgrows (Updates.bind ?_ fun _ => trivial)
    exact (updates_revokeFamily service token).mono fun _ hu => .tokens hu
  | revokeSession sessionId reason now =>
    have hcovered := covered_revokeSession hf hdocs.sessions h sessionId reason now
    unfold program
    rw [run_bind]
    exact hcovered
  | revokeAllUserSessions username reason exclude now =>
    have hcovered := covered_revokeAllUserSessions hf hdocs.sessions h username reason exclude now
    unfold program
    rw [run_bind]
    exact hcovered

theorem docs_cleanup (h : Docs service famOf login s) (now : Nat) :
    Docs service famOf login (cleanupExpiredSessions now s).1 := by
  refine ⟨h.tokens, fun d hd => ?_⟩
  obtain ⟨e, he, heq⟩ := List.mem_map.mp (List.mem_filter.mp hd).1
  rw [← heq]
  split
  · exact (h.sessions e he).revoked now "expired"
  · exact h.sessions e he

theorem docs_expire (h : Docs service famOf login s) (pickToken : TokenDoc → Bool)
    (pickSession : SessionDoc → Bool) (now : Nat) :
    Docs service famOf login (expire pickToken pickSession now s) :=
  ⟨fun d hd => h.tokens d (List.mem_filter.mp hd).1,
    fun d hd => h.sessions d (List.mem_filter.mp hd).1⟩

theorem covered_cleanup (hdocs : Docs service famOf login s) (h : Covered login s) {now : Nat}
    (hnow : now < sessionEnd service login) :
    Covered login (cleanupExpiredSessions now s).1 := by
  rcases h with hnone | ⟨d, hd, hid, hactive⟩
  · exact Or.inl hnone
  · have hends : d.expiresAt = sessionEnd service login := (hdocs.sessions d hd).ends hid
    refine Or.inr ⟨d, List.mem_filter.mpr ⟨List.mem_map.mpr ⟨d, hd, ?_⟩, ?_⟩, hid, hactive⟩
    · rw [if_neg]
      rw [Bool.and_eq_true, decide_eq_true_eq]
      omega
    · show (!(!d.isActive && _)) = true
      rw [hactive]
      rfl

theorem covered_expire (hdocs : Docs service famOf login s) (h : Covered login s)
    (pickToken : TokenDoc → Bool) (pickSession : SessionDoc → Bool) {now : Nat}
    (hnow : now < sessionEnd service login) :
    Covered login (expire pickToken pickSession now s) := by
  rcases h with hnone | ⟨d, hd, hid, hactive⟩
  · exact Or.inl fun t ht => hnone t (List.mem_filter.mp ht).1
  · have hends : d.expiresAt = sessionEnd service login := (hdocs.sessions d hd).ends hid
    refine Or.inr ⟨d, List.mem_filter.mpr ⟨hd, ?_⟩, hid, hactive⟩
    have hlate : decide (d.expiresAt ≤ now) = false := by
      rw [decide_eq_false_iff_not]
      omega
    rw [hlate, Bool.and_false]
    rfl

theorem docs_apply (hcall : ∀ c, event = .call c → Genuine service famOf c ∧ Apart login c)
    (h : Docs service famOf login s) : Docs service famOf login (event.apply service s) := by
  cases event with
  | call c => exact docs_call (hcall c rfl).1 (hcall c rfl).2 h
  | cleanup now => exact docs_cleanup h now
  | expire pickToken pickSession now => exact docs_expire h pickToken pickSession now

theorem covered_apply (hf : login.draw.family ≠ "")
    (hcall : ∀ c, event = .call c → Genuine service famOf c ∧ Apart login c)
    (hdocs : Docs service famOf login s) (h : Covered login s)
    (hclock : ∀ r, event.clock = some r → r < sessionEnd service login) :
    Covered login (event.apply service s) := by
  cases event with
  | call c => exact covered_call hf (hcall c rfl).1 (hcall c rfl).2 hdocs h
  | cleanup now => exact covered_cleanup hdocs h (hclock now rfl)
  | expire pickToken pickSession now =>
    exact covered_expire hdocs h pickToken pickSession (hclock now rfl)

/-- The calls of a run are genuine and apart from the login. -/
def Lawful (service : Service) (famOf : String → String) (login : LoginArgs)
    (events : List SessionEvent) : Prop :=
  ∀ c, SessionEvent.call c ∈ events → Genuine service famOf c ∧ Apart login c

variable {events : List SessionEvent}

theorem Lawful.head (h : Lawful service famOf login (event :: events)) (c : AuthCall)
    (hc : event = .call c) : Genuine service famOf c ∧ Apart login c :=
  h c (by rw [hc]; exact List.mem_cons_self)

theorem Lawful.tail (h : Lawful service famOf login (event :: events)) :
    Lawful service famOf login events :=
  fun c hmem => h c (List.mem_cons_of_mem event hmem)

theorem docs_runEvents (h : Lawful service famOf login events)
    (hdocs : Docs service famOf login s) :
    Docs service famOf login (runEvents service events s) := by
  induction events generalizing s with
  | nil => exact hdocs
  | cons event events ih => exact ih h.tail (docs_apply h.head hdocs)

theorem covered_runEvents (hf : login.draw.family ≠ "") (h : Lawful service famOf login events)
    (hclock : ∀ event ∈ events, ∀ r, event.clock = some r → r < sessionEnd service login)
    (hdocs : Docs service famOf login s) (hcovered : Covered login s) :
    Covered login (runEvents service events s) := by
  induction events generalizing s with
  | nil => exact hcovered
  | cons event events ih =>
    exact ih h.tail (fun e he => hclock e (List.mem_cons_of_mem event he))
      (docs_apply h.head hdocs)
      (covered_apply hf h.head hdocs hcovered (hclock event List.mem_cons_self))

end Events

section Rotations

variable {service : Service} {payload : String → Option Claims} {famOf : String → String}
  {login : LoginArgs} {s : AuthStore} {a : RotateArgs}

theorem docs_login (hlogin : famOf login.draw.tokenId = login.draw.family)
    (hs : Consistent famOf s) (hunknown : Unknown login s) {pair : TokenPair}
    (hok : ((issueTokensWithSession service login).run s).2 = .ok pair) :
    Docs service famOf login ((issueTokensWithSession service login).run s).1 ∧
      HasSession login ((issueTokensWithSession service login).run s).1 := by
  rw [(login_ok hok).1]
  refine ⟨⟨fun d hd => ?_, fun d hd => ?_⟩, _, List.mem_append_right _ List.mem_cons_self, rfl, rfl⟩
  · rcases List.mem_append.mp hd with hd | hd
    · exact hs d hd
    · rw [List.mem_singleton.mp hd]
      exact hlogin
  · rcases List.mem_append.mp hd with hd | hd
    · have hsession := hunknown.session d hd
      exact ⟨⟨fun h => absurd h hsession, fun h => absurd h (hunknown.family d hd)⟩,
        fun h => absurd h hsession, fun h => absurd h hsession⟩
    · rw [List.mem_singleton.mp hd]
      exact ⟨⟨fun _ => rfl, fun _ => rfl⟩, fun _ => rfl, fun _ => rfl⟩

theorem activeSessionOf_eq (htied : ∀ d ∈ s.sessions, Tied service login d)
    (h : HasSession login s) : activeSessionOf login.draw.family s = some login.sessionId := by
  obtain ⟨d, hd, hid, hactive⟩ := h
  unfold activeSessionOf
  cases hfound : s.sessions.find?
      (fun d => d.refreshTokenFamily == login.draw.family && d.isActive) with
  | none =>
    have hnone := List.find?_eq_none.mp hfound d hd
    rw [(htied d hd).family.mp hid, hactive] at hnone
    simp at hnone
  | some e =>
    obtain ⟨he, hquery⟩ := mem_of_find? hfound
    rw [Bool.and_eq_true, beq_iff_eq] at hquery
    rw [Option.map_some, (htied e he).family.mpr hquery.1]

theorem bounded_iff_inTime (hjwt : ∀ c, payload (service.encode c) = some c)
    (hid : login.sessionId ≠ "") (hgen : Genuine service famOf (.rotate a))
    (hdocs : Docs service famOf login s)
    (hcovered : a.draw.now < sessionEnd service login → Covered login s) :
    Bounded service payload login s a ↔ InTime service login s a := by
  have hmint : ∀ c p, p = rotatedPair service a c s →
      payload p.accessToken = some {
        sub := some c.username
        role := some c.role
        type := some "access"
        jti := some a.accessId
        iss := some "sentora"
        aud := some "sentora-api"
        sid := present ((present a.sessionId).or (activeSessionOf c.familyId s))
        tenantId := none
        exp := some (a.draw.now + minutes service.jwtAccessExpireMinutes) } := by
    intro c p hp
    rw [hp]
    exact hjwt _
  constructor
  · intro h c hc hfam hspend
    obtain ⟨⟨claims, hclaims, hsid⟩, d, hd, hdid, -, hnow⟩ :=
      h c _ hc hfam ((rotate_ok_iff hc _).mpr ⟨hspend, rfl⟩)
    refine ⟨?_, fun x hx => ?_⟩
    · rw [(hdocs.sessions d hd).ends hdid] at hnow
      exact hnow
    · rw [hmint c _ rfl] at hclaims
      rw [← Option.some.inj hclaims, hx] at hsid
      exact Option.some.inj ((present_of_eq_some hx).symm.trans hsid)
  · intro h c p hc hfam hp
    obtain ⟨hspend, hpair⟩ := (rotate_ok_iff hc p).mp hp
    obtain ⟨hnow, hgiven⟩ := h c hc hfam hspend
    obtain ⟨⟨t, ht, htid, -⟩, -⟩ := hspend
    have hhas : HasSession login s := by
      rcases hcovered hnow with hnone | hhas
      · refine absurd ?_ (hnone t ht)
        rw [← hdocs.tokens t ht, htid, (hgen c hc).1, hfam]
      · exact hhas
    refine ⟨⟨_, hmint c p hpair, ?_⟩, ?_⟩
    · show present ((present a.sessionId).or (activeSessionOf c.familyId s)) = _
      have hself : present (some login.sessionId) = some login.sessionId :=
        Option.filter_eq_some_iff.mpr ⟨rfl, decide_eq_true hid⟩
      cases hx : present a.sessionId with
      | some x =>
        rw [hgiven x hx]
        exact hself
      | none =>
        rw [Option.none_or, hfam, activeSessionOf_eq hdocs.sessions hhas]
        exact hself
    · obtain ⟨d, hd, hdid, hactive⟩ := hhas
      refine ⟨d, hd, hdid, hactive, ?_⟩
      rw [(hdocs.sessions d hd).ends hdid]
      exact hnow

end Rotations

/-- After a login, with the clock going forward, every rotation of its family is
bounded by its session exactly if every rotation that spends a token of the
family does so in time. -/
theorem rotations_bounded_iff (service : Service) (payload : String → Option Claims)
    (hjwt : ∀ c, payload (service.encode c) = some c) (famOf : String → String)
    (login : LoginArgs) (hid : login.sessionId ≠ "")
    (hlogin : famOf login.draw.tokenId = login.draw.family) (s : AuthStore)
    (hs : Consistent famOf s) (hunknown : Unknown login s) (pair : TokenPair)
    (hok : ((issueTokensWithSession service login).run s).2 = .ok pair)
    (events : List SessionEvent) (hlawful : Lawful service famOf login events)
    (hclock : (events.filterMap SessionEvent.clock).Pairwise (· ≤ ·)) :
    let start := ((issueTokensWithSession service login).run s).1
    (∀ before a after, events = before ++ .call (.rotate a) :: after →
        Bounded service payload login (runEvents service before start) a) ↔
      ∀ before a after, events = before ++ .call (.rotate a) :: after →
        InTime service login (runEvents service before start) a := by
  intro start
  obtain ⟨hdocs, hhas⟩ := docs_login hlogin hs hunknown hok
  have heach : ∀ before a after, events = before ++ .call (.rotate a) :: after →
      (Bounded service payload login (runEvents service before start) a ↔
        InTime service login (runEvents service before start) a) := by
    intro before a after heq
    have hbefore : Lawful service famOf login before :=
      fun c hmem => hlawful c (by rw [heq]; exact List.mem_append_left _ hmem)
    have hgen : Genuine service famOf (.rotate a) :=
      (hlawful _ (by rw [heq]; exact List.mem_append_right _ List.mem_cons_self)).1
    by_cases hf : login.draw.family = ""
    · have hempty : ∀ c, checkRefreshToken service a = .ok c → c.familyId ≠ login.draw.family := by
        intro c hc hfam
        have hpresent := checkRefreshToken_family hc
        rw [hfam, hf] at hpresent
        cases hpresent
      exact ⟨fun _ c hc hfam => absurd hfam (hempty c hc),
        fun _ c _ hc hfam => absurd hfam (hempty c hc)⟩
    · refine bounded_iff_inTime hjwt hid hgen (docs_runEvents hbefore hdocs) fun hnow => ?_
      refine covered_runEvents hf hbefore ?_ hdocs (Or.inr hhas)
      intro event hmem r hr
      rw [heq, List.filterMap_append, List.pairwise_append] at hclock
      have hle : r ≤ a.draw.now :=
        hclock.2.2 r (List.mem_filterMap.mpr ⟨event, hmem, hr⟩) a.draw.now List.mem_cons_self
      omega
  exact ⟨fun h before a after heq => (heach before a after heq).mp (h before a after heq),
    fun h before a after heq => (heach before a after heq).mpr (h before a after heq)⟩

def textOrNull : Option String → Json
  | none => .null
  | some s => .str s

theorem textOrNull_injective : Function.Injective textOrNull := by
  intro a b h
  cases a with
  | none => cases b with
    | none => rfl
    | some t => cases h
  | some s => cases b with
    | none => cases h
    | some t => rw [Json.str.inj h]

def intOrNull : Option Nat → Json
  | none => .null
  | some n => .int n

theorem intOrNull_injective : Function.Injective intOrNull := by
  intro a b h
  cases a with
  | none => cases b with
    | none => rfl
    | some n => cases h
  | some m => cases b with
    | none => cases h
    | some n => rw [Int.ofNat.inj (Json.int.inj h)]

def Claims.json (c : Claims) : Json :=
  .obj [("sub", textOrNull c.sub), ("role", textOrNull c.role), ("type", textOrNull c.type),
    ("jti", textOrNull c.jti), ("fam", textOrNull c.fam), ("iss", textOrNull c.iss),
    ("aud", textOrNull c.aud), ("sid", textOrNull c.sid), ("tenant_id", textOrNull c.tenantId),
    ("exp", intOrNull c.exp)]

def Claims.text (c : Claims) : String := c.json.encode

theorem Claims.text_injective : Function.Injective Claims.text := by
  intro a b h
  have hjson := encode_injective h
  cases a
  cases b
  simp only [Claims.json, Json.obj.injEq, List.cons.injEq, Prod.mk.injEq, true_and, and_true]
    at hjson
  obtain ⟨hsub, hrole, htype, hjti, hfam, hiss, haud, hsid, htenant, hexp⟩ := hjson
  rw [textOrNull_injective hsub, textOrNull_injective hrole, textOrNull_injective htype,
    textOrNull_injective hjti, textOrNull_injective hfam, textOrNull_injective hiss,
    textOrNull_injective haud, textOrNull_injective hsid, textOrNull_injective htenant,
    intOrNull_injective hexp]

/-- The claims a text was written from. -/
noncomputable def claimsOf : String → Option Claims := Function.partialInv Claims.text

theorem claimsOf_text (c : Claims) : claimsOf c.text = some c :=
  Function.partialInv_left Claims.text_injective c

/-- A service whose tokens are the texts of their claims, and whose sessions last
as given. -/
noncomputable def plainService (lifetimeDays : Nat) : Service where
  jwtAccessExpireMinutes := 15
  jwtRefreshExpireDays := 7
  sessionMaxLifetimeDays := lifetimeDays
  encode := Claims.text
  decode now token :=
    match claimsOf token with
    | none => .error "Not enough segments"
    | some c =>
      if c.exp.any (fun e => decide (e ≤ now)) then .error "Signature has expired" else .ok c
  decodeExpired token :=
    match claimsOf token with
    | none => .error "Not enough segments"
    | some c => .ok c

/-- The rotation of the first token of `sampleLogin`. -/
noncomputable def plainRotation (lifetimeDays now : Nat) : RotateArgs where
  token :=
    (refreshClaims (plainService lifetimeDays) sampleLogin.draw "alice" "viewer" "family").text
  draw := { now := now, tokenId := "second" }
  accessId := "rotated"

theorem plainRotation_claims {lifetimeDays now : Nat} (h : now < days 7) :
    checkRefreshToken (plainService lifetimeDays) (plainRotation lifetimeDays now) =
      .ok ⟨"first", "family", "alice", "viewer"⟩ := by
  have hdecode : (plainService lifetimeDays).decode now (plainRotation lifetimeDays now).token =
      .ok (refreshClaims (plainService lifetimeDays) sampleLogin.draw "alice" "viewer"
        "family") := by
    show (match claimsOf (Claims.text _) with
      | none => _
      | some c => _) = _
    rw [claimsOf_text]
    dsimp only
    rw [if_neg]
    show ¬decide (0 + days 7 ≤ now) = true
    rw [decide_eq_true_eq]
    omega
  unfold checkRefreshToken
  rw [show (plainRotation lifetimeDays now).draw.now = now from rfl, hdecode]
  rfl

theorem plainRotation_genuine {lifetimeDays now : Nat} (h : now < days 7) :
    Genuine (plainService lifetimeDays) (fun _ => "family")
      (.rotate (plainRotation lifetimeDays now)) := by
  intro c hc
  rw [plainRotation_claims h] at hc
  rw [← Except.ok.inj hc]
  exact ⟨rfl, rfl⟩

/-- A rotation one day after the login of a session of thirty days. -/
theorem early_rotation_bounded :
    Bounded (plainService 30) claimsOf sampleLogin
      ((issueTokensWithSession (plainService 30) sampleLogin).run .empty).1
      (plainRotation 30 (days 1)) := by
  have hgen : Genuine (plainService 30) (fun _ => "family")
      (.rotate (plainRotation 30 (days 1))) := plainRotation_genuine (by decide)
  refine (rotations_bounded_iff (plainService 30) claimsOf claimsOf_text (fun _ => "family")
    sampleLogin (by decide) rfl .empty (List.forall_mem_nil _)
    ⟨List.forall_mem_nil _, List.forall_mem_nil _⟩
    (loginPair (plainService 30) sampleLogin) rfl [.call (.rotate (plainRotation 30 (days 1)))]
    ?_ (List.pairwise_singleton _ _)).mpr ?_ [] _ [] rfl
  · intro c hmem
    rw [SessionEvent.call.inj (List.mem_singleton.mp hmem)]
    exact ⟨hgen, trivial⟩
  · intro before a after heq c _ _ _
    have hmem : SessionEvent.call (.rotate a) ∈
        [SessionEvent.call (.rotate (plainRotation 30 (days 1)))] := by
      rw [heq]
      exact List.mem_append_right _ List.mem_cons_self
    have ha : a = plainRotation 30 (days 1) :=
      AuthCall.rotate.inj (SessionEvent.call.inj (List.mem_singleton.mp hmem))
    rw [ha]
    exact ⟨by decide, fun x hx => by cases hx⟩

/-- A session of one day, whose document is gone when the second day starts. -/
theorem rotation_outlives_session :
    ¬∀ (service : Service) (payload : String → Option Claims),
      (∀ c, payload (service.encode c) = some c) → ∀ (famOf : String → String)
      (login : LoginArgs), login.sessionId ≠ "" →
      famOf login.draw.tokenId = login.draw.family → ∀ s : AuthStore, Consistent famOf s →
      Unknown login s → ∀ pair : TokenPair,
      ((issueTokensWithSession service login).run s).2 = .ok pair →
      ∀ events : List SessionEvent, Lawful service famOf login events →
      (events.filterMap SessionEvent.clock).Pairwise (· ≤ ·) →
      ∀ before a after, events = before ++ .call (.rotate a) :: after →
        Bounded service payload login
          (runEvents service before ((issueTokensWithSession service login).run s).1) a := by
  intro hclaim
  have hgen : Genuine (plainService 1) (fun _ => "family")
      (.rotate (plainRotation 1 (days 1))) := plainRotation_genuine (by decide)
  have hlawful : Lawful (plainService 1) (fun _ => "family") sampleLogin
      [.expire (fun _ => true) (fun _ => true) (days 1),
        .call (.rotate (plainRotation 1 (days 1)))] := by
    intro c hmem
    rcases List.mem_cons.mp hmem with hmem | hmem
    · cases hmem
    · rw [SessionEvent.call.inj (List.mem_singleton.mp hmem)]
      exact ⟨hgen, trivial⟩
  have hbounded := hclaim (plainService 1) claimsOf claimsOf_text (fun _ => "family") sampleLogin
    (by decide) rfl .empty (List.forall_mem_nil _)
    ⟨List.forall_mem_nil _, List.forall_mem_nil _⟩
    (loginPair (plainService 1) sampleLogin) rfl _ hlawful (by decide)
    [.expire (fun _ => true) (fun _ => true) (days 1)] _ [] rfl
  have hstate : runEvents (plainService 1) [.expire (fun _ => true) (fun _ => true) (days 1)]
      ((issueTokensWithSession (plainService 1) sampleLogin).run .empty).1 =
        ⟨[drawnToken (plainService 1) sampleLogin.draw "alice" "viewer" "family"], []⟩ := by
    have hpair : ((issueTokensWithSession (plainService 1) sampleLogin).run .empty).2 =
        .ok (loginPair (plainService 1) sampleLogin) := rfl
    rw [(login_ok hpair).1]
    simp [runEvents, SessionEvent.apply, expire, drawnToken, drawnSession, plainService,
      sampleLogin, AuthStore.empty, days]
  rw [hstate] at hbounded
  have hcheck : checkRefreshToken (plainService 1) (plainRotation 1 (days 1)) = _ :=
    plainRotation_claims (by decide)
  have hspend : Spendable
      ⟨[drawnToken (plainService 1) sampleLogin.draw "alice" "viewer" "family"], []⟩
      ⟨"first", "family", "alice", "viewer"⟩ (plainRotation 1 (days 1)).draw := by
    refine ⟨⟨_, List.mem_cons_self, rfl, rfl⟩, fun d hd => ?_⟩
    rw [List.mem_singleton.mp hd]
    show "first" ≠ "second"
    decide
  obtain ⟨-, d, hd, -⟩ := hbounded _ _ hcheck rfl ((rotate_ok_iff hcheck _).mpr ⟨hspend, rfl⟩)
  exact absurd hd List.not_mem_nil

end Sentora.Auth
