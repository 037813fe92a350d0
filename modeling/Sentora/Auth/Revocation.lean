import Sentora.Auth.Steps

/-!
# Finality of revocation

Whether a family of refresh tokens stays dead once its tokens are deleted.

The deletion leaves no mark.  A rotation that used its token up before the
deletion still inserts the next token after it, and the family lives on.  Where
no rotation is between these two steps when the deletion runs, every later
rotation of the family finds nothing.
-/

namespace Sentora.Auth

open Lib Process

inductive AuthCall where
  | rotate (a : RotateArgs)
  | login (a : LoginArgs)
  | revokeUserTokens (username : String)
  | revokeFamily (token : String)
  | revokeSession (sessionId reason : String) (now : Nat)
  | revokeAllUserSessions (username reason : String) (excludeSessionId : Option String) (now : Nat)

inductive Reply where
  | pair (result : Except AuthError TokenPair)
  | count (n : Nat)
  | flag (b : Bool)

def program (service : Service) (call : AuthCall) : Process AuthStore AuthOp Reply :=
  match call with
  | .rotate a => do
    let r ← rotateRefreshToken service a
    pure (.pair r)
  | .login a => do
    let r ← issueTokensWithSession service a
    pure (.pair r)
  | .revokeUserTokens username => do
    let n ← revokeUserTokens username
    pure (.count n)
  | .revokeFamily token => do
    let n ← revokeFamily service token
    pure (.count n)
  | .revokeSession sessionId reason now => do
    let b ← revokeSession sessionId reason now
    pure (.flag b)
  | .revokeAllUserSessions username reason exclude now => do
    let n ← revokeAllUserSessions username reason exclude now
    pure (.count n)

abbrev AuthPool := Pool Nat AuthStore AuthOp (fun _ => Reply)

def idle (s : AuthStore) : AuthPool := ⟨s, fun _ => .ret (.count 0)⟩

/-! ## What identifies a family

A token identifier is drawn once, so it belongs to one family: `famOf`.  The
claims of a token that decodes are those it was signed with.
-/

section Families

variable (service : Service) (famOf : String → String) (f : String)

/-- The token of a rotation names the family of its identifier, and what a call
draws is of the family it is drawn for. -/
def Genuine (call : AuthCall) : Prop :=
  match call with
  | .rotate a =>
    ∀ c, checkRefreshToken service a = .ok c →
      famOf c.tokenId = c.familyId ∧ famOf a.draw.tokenId = c.familyId
  | .login a => famOf a.draw.tokenId = a.draw.family
  | _ => True

/-- A login starts a family of its own. -/
def NotDrawn (call : AuthCall) : Prop :=
  match call with
  | .login a => a.draw.family ≠ f
  | _ => True

def EachToken (R : String → String → Prop) (s : AuthStore) : Prop :=
  ∀ d ∈ s.refreshTokens, R d.tokenId d.familyId

abbrev Consistent (s : AuthStore) : Prop := EachToken (fun t g => famOf t = g) s

def NoTokens (s : AuthStore) : Prop := ∀ d ∈ s.refreshTokens, d.familyId ≠ f

abbrev Dead (s : AuthStore) : Prop := EachToken (fun t g => famOf t = g ∧ g ≠ f) s

def Pending (p : Process AuthStore AuthOp Reply) : Prop :=
  p.next? = some (.findSession f) ∨ p.next? = some (.insertToken f)

/-- The next step of a call deletes tokens, and none of the family is left. -/
def Deletes (c : AuthPool) (i : Nat) : Prop :=
  (c.procs i).next? = some .deleteTokens ∧ NoTokens f (c.turn i).state

end Families

section Operations

variable {R : String → String → Prop} {s : AuthStore}

abbrev Keeping (R : String → String → Prop) : (AuthStore → AuthStore) → Prop :=
  StoreUpdate (fun d => R d.tokenId d.familyId) (fun _ => True)

theorem EachToken.update {u : AuthStore → AuthStore} (h : EachToken R s) (hu : Keeping R u) :
    EachToken R (u s) := by
  have hdocs : EachDoc (fun d => R d.tokenId d.familyId) (fun _ => True) s :=
    ⟨h, fun _ _ => trivial⟩
  exact (hdocs.update (fun _ hd => hd) (fun _ _ _ _ => trivial) hu).tokens

theorem steady_of_updates {α : Type} {p : Process AuthStore AuthOp α}
    (hp : Updates (Keeping R) p) : Steady (EachToken R) p :=
  hp.steady fun _ hu _ hs => hs.update hu

end Operations

section Rotations

variable {service : Service} {famOf : String → String} {f : String} {a : RotateArgs}
variable {call : AuthCall}

theorem Dead.used_family {s : AuthStore} (h : Dead famOf f s) {tokenId : String} {doc : TokenDoc}
    (hdoc : (useToken tokenId s).2 = some doc) : famOf tokenId ≠ f := by
  have hmem := List.mem_of_find?_eq_some hdoc
  have hquery := List.find?_some hdoc
  simp only [Bool.and_eq_true, beq_iff_eq] at hquery
  obtain ⟨hfam, hne⟩ := h doc hmem
  rw [← hquery.1, hfam]
  exact hne

theorem keeps_rotate (hgen : Genuine service famOf (.rotate a)) :
    Keeps (Dead famOf f)
      (fun r => (∀ c, checkRefreshToken service a = .ok c → c.familyId = f) → ∀ p, r ≠ .ok p)
      (rotateRefreshToken service a) := by
  unfold rotateRefreshToken
  cases hcheck : checkRefreshToken service a with
  | error e =>
    intro _ p hp
    cases hp
  | ok c =>
    obtain ⟨hold, hnew⟩ := hgen c hcheck
    refine Keeps.bind (R := fun stored => stored = none ∨ c.familyId ≠ f)
      (keeps_atomic fun s hs => ⟨hs.update (.growth (.tokens (.useToken c.tokenId))), ?_⟩) ?_
    · cases hstored : (useToken c.tokenId s).2 with
      | none => exact Or.inl rfl
      | some doc =>
        right
        rw [← hold]
        exact hs.used_family hstored
    · intro stored hused
      cases stored with
      | none =>
        refine Keeps.bind (R := fun _ => True)
          (steady_of_updates (updates_of_tokens (updates_deleteTokens _))).keeps ?_
        intro _ _ _ p hp
        cases hp
      | some doc =>
        have hne : c.familyId ≠ f := by
          rcases hused with hused | hused
          · cases hused
          · exact hused
        have hafter : Updates (Keeping fun t g => famOf t = g ∧ g ≠ f)
            (findSessionId a c.familyId >>= issueNewPair service a c) :=
          updates_of_tokens (updates_afterUse hcheck ⟨hnew, hne⟩)
        have hsteady : Steady (Dead famOf f)
            (findSessionId a c.familyId >>= issueNewPair service a c) := steady_of_updates hafter
        refine hsteady.keeps.mono ?_
        intro r _ hfam
        exact absurd (hfam c rfl) hne

def Inserts (service : Service) (T : TokenDoc → Prop) (S : SessionDoc → Prop) (call : AuthCall) :
    Prop :=
  match call with
  | .rotate a =>
    ∀ c, checkRefreshToken service a = .ok c →
      T (drawnToken service a.draw c.username c.role c.familyId)
  | .login a =>
    T (drawnToken service a.draw a.username a.role a.draw.family) ∧
      S (drawnSession service a a.draw.family)
  | _ => True

theorem updates_program {T : TokenDoc → Prop} {S : SessionDoc → Prop}
    (h : Inserts service T S call) : Updates (StoreUpdate T S) (program service call) := by
  cases call with
  | rotate a => exact Updates.bind (updates_of_tokens (updates_rotate h)) fun _ => trivial
  | login a =>
    exact Updates.bind (updates_of_growth (updates_issueTokensWithSession h.1 h.2))
      fun _ => trivial
  | revokeUserTokens username =>
    exact Updates.bind (updates_of_tokens (updates_deleteTokens _)) fun _ => trivial
  | revokeFamily token =>
    exact Updates.bind (updates_of_tokens (updates_revokeFamily service token)) fun _ => trivial
  | revokeSession sessionId reason now =>
    exact Updates.bind (updates_revokeSession sessionId reason now) fun _ => trivial
  | revokeAllUserSessions username reason exclude now =>
    exact Updates.bind (updates_revokeAllUserSessions username reason exclude now) fun _ => trivial

abbrev Draws (service : Service) (R : String → String → Prop) : AuthCall → Prop :=
  Inserts service (fun d => R d.tokenId d.familyId) (fun _ => True)

theorem steady_program {R : String → String → Prop} (h : Draws service R call) :
    Steady (EachToken R) (program service call) :=
  steady_of_updates (updates_program h)

theorem Genuine.draws (h : Genuine service famOf call) :
    Draws service (fun t g => famOf t = g) call := by
  cases call with
  | rotate a => exact fun c hc => (h c hc).2
  | login a => exact ⟨h, trivial⟩
  | _ => trivial

theorem NotDrawn.draws (hnew : NotDrawn f call)
    (hgen : Genuine service famOf call) (hrot : ∀ a, call ≠ .rotate a) :
    Draws service (fun t g => famOf t = g ∧ g ≠ f) call := by
  cases call with
  | rotate a => exact absurd rfl (hrot a)
  | login a => exact ⟨⟨hgen, hnew⟩, trivial⟩
  | _ => trivial

theorem keeps_program (hgen : Genuine service famOf call)
    (hnew : NotDrawn f call) : Keeps (Dead famOf f) (fun _ => True) (program service call) := by
  by_cases hrot : ∃ a, call = .rotate a
  · obtain ⟨a, ha⟩ := hrot
    rw [ha] at hgen ⊢
    exact (keeps_rotate hgen).bind fun _ _ => trivial
  · exact (steady_program (hnew.draws hgen fun a ha => hrot ⟨a, ha⟩)).keeps

end Rotations

section InFlight

variable {service : Service} {famOf : String → String} {f : String}
variable {p : Process AuthStore AuthOp Reply} {a : RotateArgs}

/-- Unless it is about to insert a token of the family, a call that goes on
leaves a dead family dead, also after a deletion of its own. -/
def Settled (famOf : String → String) (f : String) (p : Process AuthStore AuthOp Reply) : Prop :=
  ¬Pending f p →
    Keeps (Dead famOf f) (fun _ => True) p ∧
      ∀ u k, p = .step .deleteTokens u k → ∀ s, Keeps (Dead famOf f) (fun _ => True) (k s)

theorem settled_of_steady (hp : Steady (Dead famOf f) p) :
    Settled famOf f p := by
  intro _
  refine ⟨hp.keeps, ?_⟩
  intro u k heq s
  rw [heq] at hp
  exact (hp.2 s).keeps

theorem always_settled_of_steady
    (hp : Steady (Dead famOf f) p) : Always (Settled famOf f) p :=
  hp.always.mono fun _ hq => settled_of_steady hq

theorem settled_of_pending (hp : Pending f p) :
    Settled famOf f p :=
  fun hnot => absurd hp hnot

theorem always_settled_issueNewPair {c : RefreshClaims}
    (hcheck : checkRefreshToken service a = .ok c) (hf : c.familyId = f)
    (sessionId : Option String) :
    Always (Settled famOf f) (do
      let r ← issueNewPair service a c sessionId
      pure (.pair r)) := by
  have hfam : (present (some c.familyId)).getD a.draw.family = f := by
    rw [checkRefreshToken_family hcheck, hf]
    rfl
  refine ⟨settled_of_pending (Or.inr ?_), ?_⟩
  · show some (AuthOp.insertToken ((present (some c.familyId)).getD a.draw.family)) = _
    rw [hfam]
  · intro s
    apply always_settled_of_steady
    dsimp only
    cases (insertToken _ s).2 with
    | true => trivial
    | false => trivial

theorem always_settled_afterUse {c : RefreshClaims}
    (hcheck : checkRefreshToken service a = .ok c) (hf : c.familyId = f) :
    Always (Settled famOf f)
      ((findSessionId a c.familyId >>= issueNewPair service a c) >>= fun r => pure (.pair r)) := by
  unfold findSessionId
  cases present a.sessionId with
  | some sessionId => exact always_settled_issueNewPair hcheck hf (some sessionId)
  | none =>
    refine ⟨settled_of_pending (Or.inl ?_), ?_⟩
    · show some (AuthOp.findSession c.familyId) = _
      rw [hf]
    · exact fun s => always_settled_issueNewPair hcheck hf _

theorem always_settled_rotate (hgen : Genuine service famOf (.rotate a)) :
    Always (Settled famOf f) (program service (.rotate a)) := by
  have hkeeps : Keeps (Dead famOf f) (fun _ => True) (program service (.rotate a)) :=
    keeps_program hgen trivial
  revert hkeeps
  simp only [program, rotateRefreshToken]
  cases hcheck : checkRefreshToken service a with
  | error e => exact fun _ => always_settled_of_steady trivial
  | ok c =>
    intro hkeeps
    refine ⟨fun _ => ⟨hkeeps, fun u k heq => by cases heq⟩, ?_⟩
    intro s
    dsimp only
    cases (useToken c.tokenId s).2 with
    | none =>
      have hsteady : Steady (Dead famOf f)
          ((atomic AuthOp.deleteTokens (deleteTokens fun d => d.familyId == c.familyId) >>=
            fun _ => pure (Except.error (AuthError.valueError
              "Refresh token has been revoked or reused"))) >>= fun r => pure (Reply.pair r)) :=
        steady_of_updates (updates_of_tokens (Updates.bind (Updates.bind (updates_deleteTokens _)
          fun _ => trivial) fun _ => trivial))
      exact always_settled_of_steady hsteady
    | some doc =>
      by_cases hf : c.familyId = f
      · exact always_settled_afterUse hcheck hf
      · have hdraw : famOf a.draw.tokenId = c.familyId ∧ c.familyId ≠ f :=
          ⟨(hgen c hcheck).2, hf⟩
        have hsteady : Steady (Dead famOf f) ((findSessionId a c.familyId >>=
            issueNewPair service a c) >>= fun r => pure (Reply.pair r)) :=
          steady_of_updates (updates_of_tokens (Updates.bind (updates_afterUse hcheck hdraw)
            fun _ => trivial))
        exact always_settled_of_steady hsteady

theorem always_settled_login {a : LoginArgs} (hgen : Genuine service famOf (.login a)) :
    Always (Settled famOf f) (program service (.login a)) := by
  by_cases hf : a.draw.family = f
  · refine ⟨settled_of_pending (Or.inr ?_), ?_⟩
    · show some (AuthOp.insertToken a.draw.family) = _
      rw [hf]
    · intro s
      apply always_settled_of_steady
      apply steady_of_updates
      apply updates_of_growth
      refine Updates.bind ?_ fun _ => trivial
      refine Updates.bind ?_ fun _ => updates_startSession fun _ _ => trivial
      dsimp only
      cases (insertToken _ s).2 with
      | true => trivial
      | false => trivial
  · have hdraws : Draws service (fun t g => famOf t = g ∧ g ≠ f) (.login a) :=
      ⟨⟨hgen, hf⟩, trivial⟩
    exact always_settled_of_steady (steady_program hdraws)

theorem always_settled_program {call : AuthCall} (hgen : Genuine service famOf call) :
    Always (Settled famOf f) (program service call) := by
  by_cases hrot : ∃ a, call = .rotate a
  · obtain ⟨a, ha⟩ := hrot
    rw [ha] at hgen ⊢
    exact always_settled_rotate hgen
  · by_cases hlogin : ∃ a, call = .login a
    · obtain ⟨a, ha⟩ := hlogin
      rw [ha] at hgen ⊢
      exact always_settled_login hgen
    · have hnew : NotDrawn f call := by
        cases call with
        | login a => exact absurd ⟨a, rfl⟩ hlogin
        | _ => trivial
      exact always_settled_of_steady (steady_program (hnew.draws hgen fun a ha => hrot ⟨a, ha⟩))

end InFlight

abbrev AuthActs := List (Pool.Act Nat AuthCall)

def Starts (P : AuthCall → Prop) (acts : AuthActs) : Prop :=
  ∀ i call, .start i call ∈ acts → P call

theorem Starts.left {P : AuthCall → Prop} {as bs : AuthActs} (h : Starts P (as ++ bs)) :
    Starts P as :=
  fun i call hmem => h i call (List.mem_append_left bs hmem)

theorem Starts.right {P : AuthCall → Prop} {as bs : AuthActs} (h : Starts P (as ++ bs)) :
    Starts P bs :=
  fun i call hmem => h i call (List.mem_append_right as hmem)

theorem Starts.tail {P : AuthCall → Prop} {act : Pool.Act Nat AuthCall} {acts : AuthActs}
    (h : Starts P (act :: acts)) : Starts P acts :=
  fun i call hmem => h i call (List.mem_cons_of_mem act hmem)

section Finality

variable {service : Service} {famOf : String → String} {f : String} {s : AuthStore}

theorem kept_performs (hs : Consistent famOf s) {acts : AuthActs}
    (hgen : Starts (Genuine service famOf) acts) :
    Pool.Kept (Consistent famOf) (fun _ _ => True) ((idle s).performs (program service) acts) := by
  have hidle : Pool.Kept (Consistent famOf) (fun _ _ => True) (idle s) := ⟨hs, fun _ => trivial⟩
  exact hidle.performs fun i call hmem => (steady_program (hgen i call hmem).draws).keeps

theorem settled_performs {acts : AuthActs} (hgen : Starts (Genuine service famOf) acts) (j : Nat) :
    (((idle s).performs (program service) acts).procs j).Always (Settled famOf f) :=
  Pool.performs_always (c := idle s) (fun _ => always_settled_of_steady trivial)
    (fun i call hmem => always_settled_program (hgen i call hmem)) j

theorem dead_after_deletion {c : AuthPool}
    (hkept : Pool.Kept (Consistent famOf) (fun _ _ => True) c)
    (hsettled : ∀ j, (c.procs j).Always (Settled famOf f)) {i : Nat} (hdel : Deletes f c i)
    (hquiet : ∀ j, ¬Pending f (c.procs j)) :
    Pool.Kept (Dead famOf f) (fun _ _ => True) (c.turn i) := by
  obtain ⟨hnext, hgone⟩ := hdel
  have hconsistent := (hkept.turn i).state
  have hgoes_on : ∀ j, (c.procs j).Keeps (Dead famOf f) (fun _ => True) :=
    fun j => ((hsettled j).here (hquiet j)).1
  cases hp : c.procs i with
  | ret r =>
    rw [hp] at hnext
    cases hnext
  | step l u k =>
    have hl : l = .deleteTokens := by
      rw [hp] at hnext
      exact Option.some.inj hnext
    have hrest := ((hsettled i).here (hquiet i)).2 u k (by rw [hp, hl]) c.state
    rw [Pool.turn_of_step hp] at hgone hconsistent ⊢
    have hdead : Dead famOf f (u c.state) := fun d hd => ⟨hconsistent d hd, hgone d hd⟩
    have hmoved : Pool.Kept (Dead famOf f) (fun _ _ => True)
        (⟨u c.state, c.procs⟩ : AuthPool) := ⟨hdead, hgoes_on⟩
    exact hmoved.start hrest

/-- After a deletion of a family beside which no call of it is about to insert,
no rotation of one of its tokens that starts later returns a pair. -/
theorem no_pair_after_revocation (service : Service) (famOf : String → String) (f : String)
    (s : AuthStore) (hs : Consistent famOf s) (before after rest : AuthActs) (i k : Nat)
    (a : RotateArgs)
    (hgen : Starts (Genuine service famOf) (before ++ (after ++ .start k (.rotate a) :: rest)))
    (hnew : Starts (NotDrawn f) (after ++ .start k (.rotate a) :: rest))
    (hrest : ∀ call, .start k call ∉ rest)
    (hfam : ∀ c, checkRefreshToken service a = .ok c → c.familyId = f) :
    let c := (idle s).performs (program service) before
    Deletes f c i → (∀ j, ¬Pending f (c.procs j)) →
      ∀ p, (((c.turn i).performs (program service)
        (after ++ .start k (.rotate a) :: rest)).procs k).result? ≠ some (.pair (.ok p)) := by
  intro c hdel hquiet p
  have hdead := dead_after_deletion (kept_performs hs hgen.left) (settled_performs hgen.left) hdel
    hquiet
  have hmid : Pool.Kept (Dead famOf f) (fun _ _ => True)
      ((c.turn i).performs (program service) after) :=
    hdead.performs fun j call hmem =>
      keeps_program (hgen.right.left j call hmem) (hnew.left j call hmem)
  have hrotate : Keeps (Dead famOf f) (fun r => ∀ p, r ≠ .pair (.ok p))
      (program service (.rotate a)) := by
    refine (keeps_rotate (hgen.right.right k _ List.mem_cons_self)).bind ?_
    intro r hr p hp
    exact hr hfam p (Reply.pair.inj hp)
  -- from its start on the place of the rotation promises that it returns no pair
  have hlast : Pool.Kept (Dead famOf f) (fun j r => j = k → ∀ p, r ≠ .pair (.ok p))
      ((((c.turn i).performs (program service) after).start k
        (program service (.rotate a))).performs (program service) rest) := by
    refine (hmid.start_at hrotate).performs ?_
    intro j call hmem
    refine (keeps_program (hgen.right.right.tail j call hmem)
      (hnew.right.tail j call hmem)).mono ?_
    intro r _ hj
    rw [hj] at hmem
    exact absurd hmem (hrest call)
  rw [Pool.performs_append]
  intro hresult
  exact (hlast.procs k).of_result hresult rfl p rfl

end Finality

def sampleClaims (tokenId : String) : Claims :=
  { sub := some "alice", role := some "viewer", type := some "refresh", jti := some tokenId
    fam := some "family", iss := some "sentora", exp := some 604800 }

def sampleService : Service where
  jwtAccessExpireMinutes := 15
  jwtRefreshExpireDays := 7
  sessionMaxLifetimeDays := 30
  encode claims := claims.jti.getD ""
  decode _ token :=
    if token ∈ ["first", "second"] then .ok (sampleClaims token) else .error "Not enough segments"
  decodeExpired token :=
    if token ∈ ["first", "second"] then .ok (sampleClaims token) else .error "Not enough segments"

def sampleLogin : LoginArgs :=
  { userId := "1", username := "alice", role := "viewer", tenantId := none
    ipAddress := "127.0.0.1", userAgent := "curl"
    draw := ⟨0, "first", "family"⟩, sessionId := "session", accessId := "access" }

/-- A rotation of `token`, which draws `next`. -/
def sampleRotation (token next : String) : RotateArgs :=
  { token := token, draw := { now := 1, tokenId := next }, accessId := "rotated" }

theorem sampleRotation_claims {token next : String} (htoken : token = "first" ∨ token = "second") :
    checkRefreshToken sampleService (sampleRotation token next) =
      .ok ⟨token, "family", "alice", "viewer"⟩ := by
  rcases htoken with rfl | rfl
  · rfl
  · rfl

theorem sampleRotation_genuine {token next : String}
    (htoken : token = "first" ∨ token = "second") :
    Genuine sampleService (fun _ => "family") (.rotate (sampleRotation token next)) := by
  intro c hc
  rw [sampleRotation_claims htoken] at hc
  rw [← Except.ok.inj hc]
  exact ⟨rfl, rfl⟩

def quietRun : AuthActs :=
  [.start 0 (.login sampleLogin), .turn 0, .turn 0, .start 1 (.revokeFamily "first")]

theorem no_pair_after_quiet_logout : ¬∃ p,
    (((((idle .empty).performs (program sampleService) quietRun).turn 1).performs
      (program sampleService) [.start 2 (.rotate (sampleRotation "first" "second")), .turn 2,
        .turn 2]).procs 2).result? = some (.pair (.ok p)) := by
  intro hpair
  obtain ⟨p, hp⟩ := hpair
  refine no_pair_after_revocation sampleService (fun _ => "family") "family" .empty
    (List.forall_mem_nil _) quietRun [] [.turn 2, .turn 2] 1 2
    (sampleRotation "first" "second") ?_ ?_ ?_ ?_ ?_ ?_ p hp
  · intro i call hmem
    simp only [quietRun, List.cons_append, List.nil_append, List.mem_cons, Pool.Act.start.injEq,
      List.not_mem_nil, reduceCtorEq, or_false, false_or] at hmem
    rcases hmem with ⟨-, rfl⟩ | ⟨-, rfl⟩ | ⟨-, rfl⟩
    · rfl
    · trivial
    · exact sampleRotation_genuine (Or.inl rfl)
  · intro i call hmem
    simp only [List.nil_append, List.mem_cons, Pool.Act.start.injEq, List.not_mem_nil,
      reduceCtorEq, or_false] at hmem
    rw [hmem.2]
    trivial
  · intro call hmem
    simp at hmem
  · intro c hc
    rw [sampleRotation_claims (Or.inl rfl)] at hc
    rw [← Except.ok.inj hc]
  · refine ⟨rfl, ?_⟩
    have hnil : (((idle .empty).performs (program sampleService) quietRun).turn
        1).state.refreshTokens = [] := rfl
    intro d hd
    rw [hnil] at hd
    exact absurd hd List.not_mem_nil
  · intro j hpending
    match j with
    | 0 => rcases hpending with h | h <;> cases h
    | 1 => rcases hpending with h | h <;> cases h
    | _ + 2 => rcases hpending with h | h <;> cases h

def racingRun : AuthActs :=
  [.start 0 (.login sampleLogin), .turn 0, .turn 0,
    .start 1 (.rotate (sampleRotation "first" "second")), .turn 1, .start 2 (.revokeFamily "first")]

/-- The rotation in flight inserts its token into the family that was
deleted. -/
theorem revoked_family_revives :
    ¬∀ (service : Service) (famOf : String → String) (f : String) (s : AuthStore),
      Consistent famOf s → ∀ (before after rest : AuthActs) (i k : Nat) (a : RotateArgs),
      Starts (Genuine service famOf) (before ++ (after ++ .start k (.rotate a) :: rest)) →
      Starts (NotDrawn f) (after ++ .start k (.rotate a) :: rest) →
      (∀ call, .start k call ∉ rest) →
      (∀ c, checkRefreshToken service a = .ok c → c.familyId = f) →
      let c := (idle s).performs (program service) before
      Deletes f c i →
        ∀ p, (((c.turn i).performs (program service)
          (after ++ .start k (.rotate a) :: rest)).procs k).result? ≠ some (.pair (.ok p)) := by
  intro hclaim
  refine hclaim sampleService (fun _ => "family") "family" .empty
    (List.forall_mem_nil _) racingRun [.turn 1, .turn 1]
    [.turn 3, .turn 3, .turn 3] 2 3 (sampleRotation "second" "third") ?_ ?_ ?_ ?_ ?_
    ⟨"rotated", "third"⟩ rfl
  · intro i call hmem
    simp only [racingRun, List.cons_append, List.nil_append, List.mem_cons, Pool.Act.start.injEq,
      List.not_mem_nil, reduceCtorEq, or_false, false_or] at hmem
    rcases hmem with ⟨-, rfl⟩ | ⟨-, rfl⟩ | ⟨-, rfl⟩ | ⟨-, rfl⟩
    · rfl
    · exact sampleRotation_genuine (Or.inl rfl)
    · trivial
    · exact sampleRotation_genuine (Or.inr rfl)
  · intro i call hmem
    simp only [List.cons_append, List.nil_append, List.mem_cons, Pool.Act.start.injEq,
      List.not_mem_nil, reduceCtorEq, or_false, false_or] at hmem
    rw [hmem.2]
    trivial
  · intro call hmem
    simp at hmem
  · intro c hc
    rw [sampleRotation_claims (Or.inr rfl)] at hc
    rw [← Except.ok.inj hc]
  · refine ⟨rfl, ?_⟩
    have hnil : (((idle .empty).performs (program sampleService) racingRun).turn
        2).state.refreshTokens = [] := rfl
    intro d hd
    rw [hnil] at hd
    exact absurd hd List.not_mem_nil

end Sentora.Auth
