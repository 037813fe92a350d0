import Sentora.Auth.Tokens

/-!
# Steps of the token operations

Which updates of the two collections the operations of `Tokens` are made of.
What each of these updates preserves, every operation preserves at each of its
steps.
-/

namespace Sentora.Auth

open Lib Process

/-- The updates of the tokens, where one inserted meets `T`. -/
inductive TokenUpdate (T : TokenDoc → Prop) : (AuthStore → AuthStore) → Prop where
  | read : TokenUpdate T fun s => s
  | useToken (tokenId : String) : TokenUpdate T fun s => (useToken tokenId s).1
  | deleteTokens (query : TokenDoc → Bool) : TokenUpdate T fun s => (deleteTokens query s).1
  | insertToken {doc : TokenDoc} (h : T doc) : TokenUpdate T fun s => (insertToken doc s).1

/-- With the creation of a session, which meets `S`. -/
inductive Growth (T : TokenDoc → Prop) (S : SessionDoc → Prop) :
    (AuthStore → AuthStore) → Prop where
  | tokens {u : AuthStore → AuthStore} (h : TokenUpdate T u) : Growth T S u
  | insertSession {doc : SessionDoc} (h : S doc) : Growth T S fun s => (insertSession doc s).1

/-- With the ends of sessions. -/
inductive StoreUpdate (T : TokenDoc → Prop) (S : SessionDoc → Prop) :
    (AuthStore → AuthStore) → Prop where
  | growth {u : AuthStore → AuthStore} (h : Growth T S u) : StoreUpdate T S u
  | deactivateSession (sessionId : String) (now : Nat) (reason : String) :
    StoreUpdate T S fun s => (deactivateSession sessionId now reason s).1
  | deactivateSessions (sessionIds : List String) (now : Nat) (reason : String) :
    StoreUpdate T S fun s => (deactivateSessions sessionIds now reason s).1

def drawnToken (service : Service) (draw : Draw) (username role family : String) : TokenDoc where
  tokenId := draw.tokenId
  familyId := family
  username := username
  role := role
  expiresAt := draw.now + days service.jwtRefreshExpireDays
  createdAt := draw.now
  used := false

def drawnSession (service : Service) (a : LoginArgs) (family : String) : SessionDoc where
  sessionId := a.sessionId
  userId := a.userId
  username := a.username
  tenantId := a.tenantId
  createdAt := a.draw.now
  lastActiveAt := a.draw.now
  expiresAt := a.draw.now + days service.sessionMaxLifetimeDays
  ipAddress := a.ipAddress
  userAgent := a.userAgent
  isActive := true
  revokedAt := none
  revokedReason := none
  refreshTokenFamily := family

section Updates

variable {service : Service} {T : TokenDoc → Prop} {S : SessionDoc → Prop}
variable {c : RefreshClaims}

theorem updates_of_tokens {α : Type} {p : Process AuthStore AuthOp α}
    (hp : Updates (TokenUpdate T) p) : Updates (StoreUpdate T S) p :=
  hp.mono fun _ hu => .growth (.tokens hu)

theorem updates_of_growth {α : Type} {p : Process AuthStore AuthOp α}
    (hp : Updates (Growth T S) p) : Updates (StoreUpdate T S) p :=
  hp.mono fun _ hu => .growth hu

theorem updates_createRefreshToken {draw : Draw} {username role : String}
    {familyId : Option String}
    (h : T (drawnToken service draw username role ((present familyId).getD draw.family))) :
    Updates (TokenUpdate T) (createRefreshToken service draw username role familyId) := by
  refine Updates.bind (updates_atomic (.insertToken h)) ?_
  intro inserted
  cases inserted with
  | true => trivial
  | false => trivial

theorem updates_issueNewPair {a : RotateArgs}
    (h : T (drawnToken service a.draw c.username c.role
      ((present (some c.familyId)).getD a.draw.family)))
    (sessionId : Option String) :
    Updates (TokenUpdate T) (issueNewPair service a c sessionId) := by
  refine Updates.bind (updates_createRefreshToken h) ?_
  intro created
  cases created with
  | error e => trivial
  | ok r => trivial

theorem updates_findSessionId (a : RotateArgs) (familyId : String) :
    Updates (TokenUpdate T) (findSessionId a familyId) := by
  unfold findSessionId
  cases present a.sessionId with
  | some sessionId => trivial
  | none => exact updates_atomic .read

theorem updates_startSession {a : LoginArgs} {created : Except AuthError (String × String)}
    (h : ∀ r, created = .ok r → S (drawnSession service a r.2)) :
    Updates (Growth T S) (startSession service a created) := by
  cases created with
  | error e => trivial
  | ok r =>
    refine Updates.bind ?_ ?_
    · refine Updates.bind (updates_atomic (.insertSession (h r rfl))) ?_
      intro inserted
      cases inserted with
      | true => trivial
      | false => trivial
    · intro session
      cases session with
      | error e => trivial
      | ok session => trivial

theorem updates_deleteTokens (query : TokenDoc → Bool) :
    Updates (TokenUpdate T) (atomic AuthOp.deleteTokens (deleteTokens query)) :=
  updates_atomic (.deleteTokens query)

theorem updates_revokeFamily (service : Service) (token : String) :
    Updates (TokenUpdate T) (revokeFamily service token) := by
  unfold revokeFamily
  cases service.decodeExpired token with
  | error e => trivial
  | ok payload =>
    dsimp only
    cases present payload.fam with
    | none => trivial
    | some familyId => exact updates_deleteTokens _

theorem updates_revokeSession (sessionId reason : String) (now : Nat) :
    Updates (StoreUpdate T S) (revokeSession sessionId reason now) := by
  refine Updates.bind (updates_atomic (.deactivateSession sessionId now reason)) ?_
  intro result
  cases result with
  | none => trivial
  | some doc =>
    by_cases hf : doc.refreshTokenFamily ≠ ""
    · simp only [hf, ne_eq, not_false_eq_true, if_true]
      exact Updates.bind (updates_of_tokens (updates_deleteTokens _)) fun _ => trivial
    · simp only [hf, if_false]
      trivial

theorem updates_revokeAllUserSessions (username reason : String) (exclude : Option String)
    (now : Nat) :
    Updates (StoreUpdate T S) (revokeAllUserSessions username reason exclude now) := by
  refine Updates.bind (updates_atomic (.growth (.tokens .read))) ?_
  intro found
  by_cases hnone : found.map SessionDoc.sessionId = []
  · simp only [hnone, if_true]
    trivial
  · simp only [hnone, if_false]
    refine Updates.bind (updates_atomic (.deactivateSessions _ now reason)) ?_
    intro modified
    split
    · exact Updates.bind (updates_of_tokens (updates_deleteTokens _)) fun _ => trivial
    · trivial

theorem present_of_eq_some {v : Option String} {x : String} (h : present v = some x) :
    present (some x) = some x := by
  obtain ⟨-, hx⟩ := Option.filter_eq_some_iff.mp h
  exact Option.filter_eq_some_iff.mpr ⟨rfl, hx⟩

variable {a : RotateArgs}

theorem checkRefreshToken_family (h : checkRefreshToken service a = .ok c) :
    present (some c.familyId) = some c.familyId := by
  unfold checkRefreshToken at h
  split at h
  · cases h
  · split at h
    · cases h
    · split at h
      · rename_i hfam _ _
        cases h
        exact present_of_eq_some hfam
      · cases h

theorem updates_afterUse (hcheck : checkRefreshToken service a = .ok c)
    (h : T (drawnToken service a.draw c.username c.role c.familyId)) :
    Updates (TokenUpdate T) (findSessionId a c.familyId >>= issueNewPair service a c) := by
  refine Updates.bind (updates_findSessionId a c.familyId) fun sessionId => ?_
  apply updates_issueNewPair
  rw [checkRefreshToken_family hcheck]
  exact h

theorem updates_rotate (h : ∀ c, checkRefreshToken service a = .ok c →
    T (drawnToken service a.draw c.username c.role c.familyId)) :
    Updates (TokenUpdate T) (rotateRefreshToken service a) := by
  unfold rotateRefreshToken
  cases hcheck : checkRefreshToken service a with
  | error e => trivial
  | ok c =>
    refine Updates.bind (updates_atomic (.useToken c.tokenId)) ?_
    intro stored
    cases stored with
    | none => exact Updates.bind (updates_deleteTokens _) fun _ => trivial
    | some doc => exact updates_afterUse hcheck (h c hcheck)

theorem updates_issueTokensWithSession {a : LoginArgs}
    (htoken : T (drawnToken service a.draw a.username a.role a.draw.family))
    (hsession : S (drawnSession service a a.draw.family)) :
    Updates (Growth T S) (issueTokensWithSession service a) := by
  refine ⟨.tokens (.insertToken htoken), fun s => ?_⟩
  dsimp only
  cases (insertToken _ s).2 with
  | true =>
    show Updates (Growth T S) (startSession service a (.ok (_, a.draw.family)))
    refine updates_startSession ?_
    intro r hr
    rw [← Except.ok.inj hr]
    exact hsession
  | false => trivial

end Updates

theorem mem_updateFirst {α : Type} {query : α → Bool} {update : α → α} {l : List α} {d : α}
    (h : d ∈ updateFirst query update l) : d ∈ l ∨ ∃ e ∈ l, query e = true ∧ d = update e := by
  induction l with
  | nil => exact absurd h List.not_mem_nil
  | cons e l ih =>
    rw [updateFirst] at h
    by_cases hq : query e = true
    · rw [if_pos hq] at h
      rcases List.mem_cons.mp h with h | h
      · exact Or.inr ⟨e, List.mem_cons_self, hq, h⟩
      · exact Or.inl (List.mem_cons_of_mem e h)
    · rw [if_neg hq] at h
      rcases List.mem_cons.mp h with h | h
      · rw [h]
        exact Or.inl List.mem_cons_self
      · rcases ih h with h | h
        · exact Or.inl (List.mem_cons_of_mem e h)
        · obtain ⟨e', he', hd⟩ := h
          exact Or.inr ⟨e', List.mem_cons_of_mem e he', hd⟩

/-- An assertion about every token and one about every session. -/
structure EachDoc (T : TokenDoc → Prop) (S : SessionDoc → Prop) (s : AuthStore) : Prop where
  tokens : ∀ d ∈ s.refreshTokens, T d
  sessions : ∀ d ∈ s.sessions, S d

section Preserved

variable {T : TokenDoc → Prop} {S : SessionDoc → Prop} {s : AuthStore} {u : AuthStore → AuthStore}

theorem TokenUpdate.sessions (hu : TokenUpdate T u) (s : AuthStore) :
    (u s).sessions = s.sessions := by
  cases hu with
  | read => rfl
  | useToken tokenId => rfl
  | deleteTokens query => rfl
  | @insertToken doc hdoc =>
    show (Auth.insertToken doc s).1.sessions = s.sessions
    unfold Auth.insertToken
    split <;> rfl

theorem Growth.sessions (hu : Growth T S u) {d : SessionDoc} (hd : d ∈ s.sessions) :
    d ∈ (u s).sessions := by
  cases hu with
  | tokens h =>
    rw [h.sessions]
    exact hd
  | @insertSession doc hdoc =>
    show d ∈ (Auth.insertSession doc s).1.sessions
    unfold Auth.insertSession
    split
    · exact hd
    · exact List.mem_append_left _ hd

theorem EachDoc.tokenUpdate (h : EachDoc T S s) (hT : ∀ d, T d → T { d with used := true })
    (hu : TokenUpdate T u) : EachDoc T S (u s) := by
  refine ⟨?_, fun d hd => h.sessions d (by rwa [hu.sessions] at hd)⟩
  cases hu with
  | read => exact h.tokens
  | useToken tokenId =>
    intro d hd
    rcases mem_updateFirst hd with hd | ⟨e, he, -, heq⟩
    · exact h.tokens d hd
    · rw [heq]
      exact hT e (h.tokens e he)
  | deleteTokens query => exact fun d hd => h.tokens d (List.mem_filter.mp hd).1
  | @insertToken doc hdoc =>
    show ∀ d ∈ (insertToken doc s).1.refreshTokens, T d
    unfold insertToken
    split
    · exact h.tokens
    · intro d hd
      rcases List.mem_append.mp hd with hd | hd
      · exact h.tokens d hd
      · rw [List.mem_singleton.mp hd]
        exact hdoc

/-- Assertions that do not mention what a use or a revocation changes last. -/
theorem EachDoc.update (h : EachDoc T S s) (hT : ∀ d, T d → T { d with used := true })
    (hS : ∀ now reason d, S d → S (revoked now reason d)) (hu : StoreUpdate T S u) :
    EachDoc T S (u s) := by
  cases hu with
  | growth hu =>
    cases hu with
    | tokens hu => exact h.tokenUpdate hT hu
    | @insertSession doc hdoc =>
      show EachDoc T S (insertSession doc s).1
      unfold insertSession
      split
      · exact h
      · refine ⟨h.tokens, fun d hd => ?_⟩
        rcases List.mem_append.mp hd with hd | hd
        · exact h.sessions d hd
        · rw [List.mem_singleton.mp hd]
          exact hdoc
  | deactivateSession sessionId now reason =>
    refine ⟨h.tokens, fun d hd => ?_⟩
    rcases mem_updateFirst hd with hd | ⟨e, he, -, heq⟩
    · exact h.sessions d hd
    · rw [heq]
      exact hS now reason e (h.sessions e he)
  | deactivateSessions sessionIds now reason =>
    refine ⟨h.tokens, fun d hd => ?_⟩
    obtain ⟨e, he, heq⟩ := List.mem_map.mp hd
    rw [← heq]
    by_cases hid : e.sessionId ∈ sessionIds
    · rw [if_pos hid]
      exact hS now reason e (h.sessions e he)
    · rw [if_neg hid]
      exact h.sessions e he

end Preserved

section Calls

variable {service : Service} {s : AuthStore}

theorem mem_of_find? {α : Type} {query : α → Bool} {l : List α} {d : α}
    (h : l.find? query = some d) : d ∈ l ∧ query d = true :=
  ⟨List.mem_of_find?_eq_some h, List.find?_some h⟩

def Spendable (s : AuthStore) (c : RefreshClaims) (draw : Draw) : Prop :=
  (∃ d ∈ s.refreshTokens, d.tokenId = c.tokenId ∧ d.used = false) ∧
    ∀ d ∈ s.refreshTokens, d.tokenId ≠ draw.tokenId

def refreshClaims (service : Service) (draw : Draw) (username role family : String) : Claims where
  sub := some username
  role := some role
  type := some "refresh"
  jti := some draw.tokenId
  fam := some family
  iss := some "sentora"
  exp := some (draw.now + days service.jwtRefreshExpireDays)

def rotatedPair (service : Service) (a : RotateArgs) (c : RefreshClaims) (s : AuthStore) :
    TokenPair where
  accessToken := createAccessToken service a.draw.now a.accessId c.username c.role
    ((present a.sessionId).or (activeSessionOf c.familyId s)) none
  refreshToken := service.encode (refreshClaims service a.draw c.username c.role c.familyId)

def loginPair (service : Service) (a : LoginArgs) : TokenPair where
  accessToken := createAccessToken service a.draw.now a.accessId a.username a.role
    (some a.sessionId) a.boundTenant
  refreshToken := service.encode (refreshClaims service a.draw a.username a.role a.draw.family)

theorem insertToken_new {doc : TokenDoc} (h : ∀ d ∈ s.refreshTokens, d.tokenId ≠ doc.tokenId) :
    insertToken doc s = ({ s with refreshTokens := s.refreshTokens ++ [doc] }, true) := by
  have hany : s.refreshTokens.any (fun d => d.tokenId == doc.tokenId) = false := by
    rw [List.any_eq_false]
    intro d hd heq
    exact h d hd (beq_iff_eq.mp heq)
  unfold insertToken
  rw [hany]
  rfl

theorem insertToken_old {doc : TokenDoc} (h : ¬∀ d ∈ s.refreshTokens, d.tokenId ≠ doc.tokenId) :
    insertToken doc s = (s, false) := by
  have hany : s.refreshTokens.any (fun d => d.tokenId == doc.tokenId) = true := by
    simp only [not_forall, not_not] at h
    obtain ⟨d, hd, heq⟩ := h
    exact List.any_eq_true.mpr ⟨d, hd, beq_iff_eq.mpr heq⟩
  unfold insertToken
  rw [if_pos hany]

theorem map_updateFirst {α β : Type} {f : α → β} {query : α → Bool} {update : α → α}
    (h : ∀ d, f (update d) = f d) (l : List α) :
    (updateFirst query update l).map f = l.map f := by
  induction l with
  | nil => rfl
  | cons d l ih =>
    rw [updateFirst]
    by_cases hq : query d = true
    · rw [if_pos hq, List.map_cons, List.map_cons, h]
    · rw [if_neg hq, List.map_cons, List.map_cons, ih]

theorem useToken_fresh (tokenId next : String) :
    (∀ d ∈ (useToken tokenId s).1.refreshTokens, d.tokenId ≠ next) ↔
      ∀ d ∈ s.refreshTokens, d.tokenId ≠ next := by
  have hmap : (useToken tokenId s).1.refreshTokens.map TokenDoc.tokenId =
      s.refreshTokens.map TokenDoc.tokenId := by
    apply map_updateFirst
    intro d
    rfl
  have hiff : ∀ l : List TokenDoc,
      (∀ d ∈ l, d.tokenId ≠ next) ↔ next ∉ l.map TokenDoc.tokenId := by
    intro l
    simp only [List.mem_map, not_exists, not_and]
  rw [hiff, hiff, hmap]

theorem run_createRefreshToken {draw : Draw} {username role family : String}
    {familyId : Option String} (hfam : (present familyId).getD draw.family = family) :
    (createRefreshToken service draw username role familyId).run s =
      if ∀ d ∈ s.refreshTokens, d.tokenId ≠ draw.tokenId then
        ({ s with refreshTokens := s.refreshTokens ++
            [drawnToken service draw username role family] },
          .ok (service.encode (refreshClaims service draw username role family), family))
      else (s, .error (.duplicateKey draw.tokenId)) := by
  unfold createRefreshToken
  rw [hfam, run_bind, run_atomic]
  by_cases hnew : ∀ d ∈ s.refreshTokens, d.tokenId ≠ draw.tokenId
  · rw [if_pos hnew, insertToken_new hnew]
    rfl
  · rw [if_neg hnew, insertToken_old hnew]
    rfl

theorem run_findSessionId (a : RotateArgs) (familyId : String) :
    (findSessionId a familyId).run s =
      (s, (present a.sessionId).or (activeSessionOf familyId s)) := by
  unfold findSessionId
  cases present a.sessionId with
  | none => rfl
  | some sessionId => rfl

theorem rotate_ok_iff {a : RotateArgs} {c : RefreshClaims}
    (hcheck : checkRefreshToken service a = .ok c) (p : TokenPair) :
    ((rotateRefreshToken service a).run s).2 = .ok p ↔
      Spendable s c a.draw ∧ p = rotatedPair service a c s := by
  unfold rotateRefreshToken
  rw [hcheck]
  dsimp only
  rw [run_bind, run_atomic]
  cases hstored : (useToken c.tokenId s).2 with
  | none =>
    rw [run_bind]
    constructor
    · intro h
      cases h
    · rintro ⟨⟨⟨d, hd, hid, hunused⟩, -⟩, -⟩
      have hnone := List.find?_eq_none.mp hstored d hd
      rw [hid, hunused] at hnone
      simp at hnone
  | some doc =>
    obtain ⟨hmem, hquery⟩ := mem_of_find? hstored
    simp only [Bool.and_eq_true, beq_iff_eq, Bool.not_eq_true'] at hquery
    dsimp only
    rw [run_bind, run_findSessionId]
    have hfam : (present (some c.familyId)).getD a.draw.family = c.familyId := by
      rw [checkRefreshToken_family hcheck]
      rfl
    unfold issueNewPair
    rw [run_bind, run_createRefreshToken hfam]
    by_cases hnew : ∀ d ∈ s.refreshTokens, d.tokenId ≠ a.draw.tokenId
    · rw [if_pos ((useToken_fresh c.tokenId _).mpr hnew)]
      have hspend : Spendable s c a.draw := ⟨⟨doc, hmem, hquery⟩, hnew⟩
      constructor
      · intro h
        exact ⟨hspend, (Except.ok.inj h).symm⟩
      · rintro ⟨-, rfl⟩
        rfl
    · rw [if_neg fun h => hnew ((useToken_fresh c.tokenId _).mp h)]
      constructor
      · intro h
        cases h
      · rintro ⟨⟨-, hfresh⟩, -⟩
        exact absurd hfresh hnew

theorem login_ok {a : LoginArgs} {p : TokenPair}
    (h : ((issueTokensWithSession service a).run s).2 = .ok p) :
    ((issueTokensWithSession service a).run s).1 =
        ⟨s.refreshTokens ++ [drawnToken service a.draw a.username a.role a.draw.family],
          s.sessions ++ [drawnSession service a a.draw.family]⟩ ∧
      p = loginPair service a := by
  have hfam : (present none).getD a.draw.family = a.draw.family := rfl
  unfold issueTokensWithSession at h ⊢
  rw [run_bind, run_createRefreshToken hfam] at h ⊢
  by_cases hnew : ∀ d ∈ s.refreshTokens, d.tokenId ≠ a.draw.tokenId
  · rw [if_pos hnew] at h ⊢
    unfold startSession createSession at h ⊢
    dsimp only at h ⊢
    rw [run_bind, run_bind, run_atomic] at h ⊢
    unfold insertSession at h ⊢
    by_cases hold : s.sessions.any (fun d => d.sessionId == a.sessionId) = true
    · rw [if_pos hold] at h
      cases h
    · rw [if_neg hold] at h ⊢
      exact ⟨rfl, (Except.ok.inj h).symm⟩
  · rw [if_neg hnew] at h
    cases h

end Calls

end Sentora.Auth
