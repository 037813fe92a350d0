import Sentora.Auth.Revocation
import Sentora.Lib.Ledger

/-!
# One live token

How many unused refresh tokens a family can have while logins, rotations and
revocations run in any order, and how many rotations of one token return a pair.

A rotation that has used a token up may insert one; nobody else may, but for the
login that draws the family.  So the unused tokens and the calls that may still
insert one are counted together.
-/

namespace Sentora.Auth

open Lib Process

/-- How many unused tokens have `x` as their key. -/
def liveTokens (key : TokenDoc → String) (x : String) (s : AuthStore) : Nat :=
  s.refreshTokens.countP fun d => key d == x && !d.used

def share (x k : String) : Nat := if k = x then 1 else 0

section Counting

variable {key : TokenDoc → String} {x : String} {s : AuthStore}

theorem countP_updateFirst {α : Type} {p query : α → Bool} {update : α → α} {l : List α} {d : α}
    (hfound : l.find? query = some d) (hupdate : ∀ e, p (update e) = false) :
    (updateFirst query update l).countP p + (if p d = true then 1 else 0) = l.countP p := by
  induction l with
  | nil => cases hfound
  | cons e l ih =>
    rw [updateFirst, List.countP_cons]
    by_cases he : query e = true
    · rw [List.find?_cons_of_pos he] at hfound
      rw [if_pos he, List.countP_cons_of_neg (by simp [hupdate]), ← Option.some.inj hfound]
    · rw [List.find?_cons_of_neg he] at hfound
      rw [if_neg he, List.countP_cons, ← ih hfound]
      omega

theorem updateFirst_of_none {α : Type} {query : α → Bool} {update : α → α} {l : List α}
    (hnone : l.find? query = none) : updateFirst query update l = l := by
  induction l with
  | nil => rfl
  | cons e l ih =>
    have he : ¬query e = true := fun h => by
      rw [List.find?_cons_of_pos h] at hnone
      cases hnone
    rw [List.find?_cons_of_neg he] at hnone
    rw [updateFirst, if_neg he, ih hnone]

theorem liveTokens_useToken {tokenId : String} {d : TokenDoc}
    (hfound : (useToken tokenId s).2 = some d) :
    liveTokens key x (useToken tokenId s).1 + share x (key d) = liveTokens key x s := by
  have hunused : d.used = false := by
    have hquery := List.find?_some hfound
    simp only [Bool.and_eq_true, Bool.not_eq_true'] at hquery
    exact hquery.2
  have hshare : share x (key d) = if (key d == x && !d.used) = true then 1 else 0 := by
    simp [share, hunused]
  rw [hshare]
  exact countP_updateFirst hfound fun e => by simp

theorem liveTokens_useToken_none {tokenId : String} (hnone : (useToken tokenId s).2 = none) :
    liveTokens key x (useToken tokenId s).1 = liveTokens key x s := by
  show (updateFirst _ _ s.refreshTokens).countP _ = _
  rw [updateFirst_of_none hnone]
  rfl

theorem liveTokens_useToken_le (tokenId : String) :
    liveTokens key x (useToken tokenId s).1 ≤ liveTokens key x s := by
  cases h : (useToken tokenId s).2 with
  | none => exact (liveTokens_useToken_none h).le
  | some d =>
    have hcount : liveTokens key x (useToken tokenId s).1 + share x (key d) = liveTokens key x s :=
      liveTokens_useToken h
    omega

theorem liveTokens_deleteTokens_le (query : TokenDoc → Bool) :
    liveTokens key x (deleteTokens query s).1 ≤ liveTokens key x s :=
  List.filter_sublist.countP_le

theorem liveTokens_insertToken {doc : TokenDoc} (hunused : doc.used = false)
    (h : (insertToken doc s).2 = true) :
    liveTokens key x (insertToken doc s).1 = liveTokens key x s + share x (key doc) := by
  by_cases hnew : ∀ d ∈ s.refreshTokens, d.tokenId ≠ doc.tokenId
  · rw [insertToken_new hnew]
    show (s.refreshTokens ++ [doc]).countP _ = _
    rw [List.countP_append]
    simp [liveTokens, share, hunused, List.countP_singleton]
  · rw [insertToken_old hnew] at h
    cases h

theorem insertToken_refused {doc : TokenDoc} (h : (insertToken doc s).2 = false) :
    (insertToken doc s).1 = s := by
  by_cases hnew : ∀ d ∈ s.refreshTokens, d.tokenId ≠ doc.tokenId
  · rw [insertToken_new hnew] at h
    cases h
  · rw [insertToken_old hnew]

end Counting

def liveLedger (famOf : String → String) (key : TokenDoc → String) (x : String) :
    Ledger AuthStore AuthOp where
  inv := Consistent famOf
  allows _ _ := True
  stock := liveTokens key x
  rel := (· ≤ ·)
  trans := Nat.le_trans
  add c h := Nat.add_le_add_right h c

section Calls

variable {service : Service} {famOf : String → String} {key : TokenDoc → String} {x : String}
  {n : Nat}
variable {S : SessionDoc → Prop}

def Revokes : AuthCall → Prop
  | .rotate _ => False
  | .login _ => False
  | _ => True

theorem StoreUpdate.liveTokens_le {u : AuthStore → AuthStore}
    (hu : StoreUpdate (fun _ => False) S u) (s : AuthStore) :
    liveTokens key x (u s) ≤ liveTokens key x s := by
  cases hu with
  | growth hu =>
    cases hu with
    | tokens hu =>
      cases hu with
      | read => exact Nat.le_refl _
      | useToken tokenId => exact liveTokens_useToken_le tokenId
      | deleteTokens query => exact liveTokens_deleteTokens_le query
      | insertToken h => exact h.elim
    | @insertSession doc h =>
      show liveTokens key x (insertSession doc s).1 ≤ _
      unfold insertSession
      split
      · exact Nat.le_refl _
      · exact Nat.le_refl _
  | deactivateSession sessionId now reason => exact Nat.le_refl _
  | deactivateSessions sessionIds now reason => exact Nat.le_refl _

theorem StoreUpdate.keeping {u : AuthStore → AuthStore}
    (hu : StoreUpdate (fun _ => False) S u) (R : String → String → Prop) : Keeping R u := by
  cases hu with
  | growth hu =>
    cases hu with
    | tokens hu =>
      cases hu with
      | read => exact .growth (.tokens .read)
      | useToken tokenId => exact .growth (.tokens (.useToken tokenId))
      | deleteTokens query => exact .growth (.tokens (.deleteTokens query))
      | insertToken h => exact h.elim
    | insertSession h => exact .growth (.insertSession trivial)
  | deactivateSession sessionId now reason => exact .deactivateSession sessionId now reason
  | deactivateSessions sessionIds now reason => exact .deactivateSessions sessionIds now reason

theorem pays_of_updates {α : Type} {p : Process AuthStore AuthOp α}
    (hp : Updates (StoreUpdate (fun _ => False) S) p) (n : Nat) :
    Pays (liveLedger famOf key x) (fun m _ => m = n) n p :=
  hp.pays (fun _ hu s (hs : Consistent famOf s) =>
    ⟨hs.update (hu.keeping _), hu.liveTokens_le s⟩) n

theorem pays_revocation {call : AuthCall} (h : Revokes call) (n : Nat) :
    Pays (liveLedger famOf key x) (fun _ _ => True) n (program service call) := by
  have hinserts : Inserts service (fun _ => False) (fun _ => False) call := by
    cases call with
    | rotate a => exact h.elim
    | login a => exact h.elim
    | _ => trivial
  exact (pays_of_updates (updates_program hinserts) n).mono fun _ _ _ => trivial

theorem pays_insertToken {l : AuthOp} {doc : TokenDoc} (hunused : doc.used = false)
    (hdoc : famOf doc.tokenId = doc.familyId) (hcredit : share x (key doc) ≤ n) :
    Pays (liveLedger famOf key x)
      (fun m inserted => inserted = true → m + share x (key doc) = n) n
      (atomic l (insertToken doc)) := by
  refine pays_atomic fun s (hs : Consistent famOf s) _ => ?_
  refine ⟨hs.update (.growth (.tokens (.insertToken hdoc))), ?_⟩
  cases hinserted : (insertToken doc s).2 with
  | true =>
    refine ⟨n - share x (key doc), ?_, fun _ => Nat.sub_add_cancel hcredit⟩
    show liveTokens key x (insertToken doc s).1 + (n - share x (key doc)) ≤ liveTokens key x s + n
    rw [liveTokens_insertToken hunused hinserted]
    omega
  | false =>
    refine ⟨n, ?_, fun h => by cases h⟩
    rw [insertToken_refused hinserted]
    exact Nat.le_refl _

theorem pays_createRefreshToken {draw : Draw} {username role family : String}
    {familyId : Option String} (hfamily : (present familyId).getD draw.family = family)
    (hdraw : famOf draw.tokenId = family)
    (hcredit : share x (key (drawnToken service draw username role family)) ≤ n) :
    Pays (liveLedger famOf key x)
      (fun m r => ∀ created, r = .ok created →
        m + share x (key (drawnToken service draw username role family)) = n) n
      (createRefreshToken service draw username role familyId) := by
  subst hfamily
  refine (pays_insertToken rfl hdraw hcredit).bind fun m inserted hpaid => ?_
  cases inserted with
  | true => exact fun _ _ => hpaid rfl
  | false => exact fun created h => by cases h

theorem pays_rotate {a : RotateArgs} {c : RefreshClaims} {old : String}
    {Q : Nat → Reply → Prop} (hcheck : checkRefreshToken service a = .ok c)
    (hdraw : famOf a.draw.tokenId = c.familyId)
    (hold : ∀ s d, Consistent famOf s → (useToken c.tokenId s).2 = some d → key d = old)
    (hcredit : share x (key (drawnToken service a.draw c.username c.role c.familyId)) ≤
      n + share x old)
    (hfails : ∀ m e, Q m (.pair (.error e)))
    (hpair : ∀ m p,
      m + share x (key (drawnToken service a.draw c.username c.role c.familyId)) =
        n + share x old → Q m (.pair (.ok p))) :
    Pays (liveLedger famOf key x) Q n (program service (.rotate a)) := by
  have hfamily : (present (some c.familyId)).getD a.draw.family = c.familyId := by
    rw [checkRefreshToken_family hcheck]
    rfl
  simp only [program, rotateRefreshToken, hcheck]
  refine Pays.bind (R := fun m r => Q m (.pair r)) ?_ fun m r hr => hr
  refine Pays.bind (R := fun m stored => ∀ d, stored = some d → m = n + share x old)
    (pays_atomic fun s (hs : Consistent famOf s) _ => ?_) fun m stored hstored => ?_
  · refine ⟨hs.update (.growth (.tokens (.useToken c.tokenId))), ?_⟩
    cases hfound : (useToken c.tokenId s).2 with
    | none =>
      refine ⟨n, ?_, fun d h => by cases h⟩
      exact Nat.add_le_add_right (liveTokens_useToken_le c.tokenId) n
    | some d =>
      refine ⟨n + share x old, ?_, fun _ _ => rfl⟩
      have hused : liveTokens key x (useToken c.tokenId s).1 + share x (key d) =
          liveTokens key x s := liveTokens_useToken hfound
      rw [hold s d hs hfound] at hused
      show liveTokens key x (useToken c.tokenId s).1 + (n + share x old) ≤ liveTokens key x s + n
      omega
  · cases stored with
    | none =>
      have hdelete : Updates (StoreUpdate (fun _ => False) (fun _ => False))
          (atomic AuthOp.deleteTokens (deleteTokens fun d => d.familyId == c.familyId)) :=
        updates_of_tokens (updates_deleteTokens _)
      exact (pays_of_updates hdelete m).bind fun _ _ _ => hfails _ _
    | some d =>
      rw [hstored d rfl]
      have hfind : Updates (StoreUpdate (fun _ => False) (fun _ => False))
          (findSessionId a c.familyId) := updates_of_tokens (updates_findSessionId a c.familyId)
      refine (pays_of_updates hfind _).bind fun m sessionId hm => ?_
      rw [hm]
      refine (pays_createRefreshToken hfamily hdraw hcredit).bind fun m created hpaid => ?_
      cases created with
      | error e => exact hfails m e
      | ok r => exact hpair m _ (hpaid r rfl)

theorem pays_login {a : LoginArgs} (hdraw : famOf a.draw.tokenId = a.draw.family)
    (hcredit : share x (key (drawnToken service a.draw a.username a.role a.draw.family)) ≤ n) :
    Pays (liveLedger famOf key x) (fun _ _ => True) n (program service (.login a)) := by
  have hfamily : (present none).getD a.draw.family = a.draw.family := rfl
  refine Pays.bind (R := fun _ _ => True) ?_ fun _ _ _ => trivial
  refine (pays_createRefreshToken hfamily hdraw hcredit).bind fun m created _ => ?_
  have hstart : Updates (Growth (fun _ => False) (fun _ => True))
      (startSession service a created) := updates_startSession fun _ _ => trivial
  exact (pays_of_updates (updates_of_growth hstart) m).mono fun _ _ _ => trivial

end Calls

def inFlight (service : Service) (calls : Nat → AuthCall) : AuthPool :=
  ⟨.empty, fun i => program service (calls i)⟩

def tokenDrawn : AuthCall → Option String
  | .rotate a => some a.draw.tokenId
  | .login a => some a.draw.tokenId
  | _ => none

def familyDrawn : AuthCall → Option String
  | .login a => some a.draw.family
  | _ => none

/-- `secrets` draws nothing twice. -/
structure DrawnOnce (calls : Nat → AuthCall) : Prop where
  token : ∀ i j t, tokenDrawn (calls i) = some t → tokenDrawn (calls j) = some t → i = j
  family : ∀ i j f, familyDrawn (calls i) = some f → familyDrawn (calls j) = some f → i = j

/-- `jwt.decode` gives the claims a token carries, or fails. -/
def CarriesClaims (service : Service) : Prop :=
  ∀ now now' token c c', service.decode now token = .ok c → service.decode now' token = .ok c' →
    c = c'

section Runs

variable {service : Service} {famOf : String → String} {calls : Nat → AuthCall}

theorem checkRefreshToken_of_token (hjwt : CarriesClaims service) {a b : RotateArgs}
    {c c' : RefreshClaims} (htoken : a.token = b.token) (ha : checkRefreshToken service a = .ok c)
    (hb : checkRefreshToken service b = .ok c') : c = c' := by
  unfold checkRefreshToken at ha hb
  cases hda : service.decode a.draw.now a.token with
  | error e => rw [hda] at ha; cases ha
  | ok payload =>
    cases hdb : service.decode b.draw.now b.token with
    | error e => rw [hdb] at hb; cases hb
    | ok payload' =>
      rw [← htoken] at hdb
      rw [hda] at ha
      rw [← htoken, hdb, hjwt _ _ _ _ _ hdb hda] at hb
      exact Except.ok.inj (ha.symm.trans hb)

theorem exists_tokenId (hjwt : CarriesClaims service) (token : String) :
    ∃ t, ∀ a c, a.token = token → checkRefreshToken service a = .ok c → c.tokenId = t := by
  by_cases hsome : ∃ a c, a.token = token ∧ checkRefreshToken service a = .ok c
  · obtain ⟨a, c, ha, hc⟩ := hsome
    refine ⟨c.tokenId, fun b c' hb hc' => ?_⟩
    rw [checkRefreshToken_of_token hjwt (hb.trans ha.symm) hc' hc]
  · exact ⟨"", fun a c ha hc => absurd ⟨a, c, ha, hc⟩ hsome⟩

theorem tokenId_of_useToken {s : AuthStore} {tokenId : String} {d : TokenDoc}
    (h : (useToken tokenId s).2 = some d) : d.tokenId = tokenId := by
  have hquery := List.find?_some h
  simp only [Bool.and_eq_true, beq_iff_eq] at hquery
  exact hquery.1

theorem familyId_of_useToken {s : AuthStore} {a : RotateArgs} {c : RefreshClaims} {d : TokenDoc}
    (hgen : Genuine service famOf (.rotate a)) (hcheck : checkRefreshToken service a = .ok c)
    (hs : Consistent famOf s) (h : (useToken c.tokenId s).2 = some d) :
    d.familyId = c.familyId := by
  rw [← hs d (List.mem_of_find?_eq_some h), tokenId_of_useToken h]
  exact (hgen c hcheck).1

theorem program_rotate_of_error {a : RotateArgs} {e : AuthError}
    (hcheck : checkRefreshToken service a = .error e) :
    program service (.rotate a) = .ret (.pair (.error e)) := by
  simp only [program, rotateRefreshToken, hcheck]
  rfl

def creditOf (drawn : AuthCall → Option String) (x : String) (call : AuthCall) : Nat :=
  if drawn call = some x then 1 else 0

theorem paid_inFlight {key : TokenDoc → String} {x : String} {drawn : AuthCall → Option String}
    {Q : Nat → Nat → Reply → Prop}
    (honce : ∀ i j x, drawn (calls i) = some x → drawn (calls j) = some x → i = j)
    (hpays : ∀ i, Pays (liveLedger famOf key x) (Q i) (creditOf drawn x (calls i))
      (program service (calls i))) (schedule : List Nat) :
    Pool.Paid (liveLedger famOf key x) Q 1 ((inFlight service calls).exec schedule) := by
  have hstart : Pool.Paid (liveLedger famOf key x) Q 1 (inFlight service calls) := by
    refine ⟨List.forall_mem_nil _, _, hpays, ∅, fun T _ => ?_⟩
    show 0 + _ ≤ 1
    rw [Nat.zero_add]
    refine Pool.sum_le_one (fun i => ?_) (fun i j hi hj => ?_) T
    · unfold creditOf
      split
      · exact Nat.le_refl 1
      · exact Nat.zero_le 1
    · simp only [creditOf, ne_eq, ite_eq_right_iff, Nat.one_ne_zero, imp_false, not_not] at hi hj
      exact honce i j x hi hj
  have hallows : ∀ (c : AuthPool) (is : List Nat), Pool.Guarded (fun c i =>
      ∀ l, (c.procs i).next? = some l → (liveLedger famOf key x).allows l c.state) c is := by
    intro c is
    induction is generalizing c with
    | nil => trivial
    | cons i is ih => exact ⟨fun _ _ => trivial, ih _⟩
  exact hstart.exec (hallows _ schedule)

theorem paid_family (hgen : ∀ i, Genuine service famOf (calls i)) (hdrawn : DrawnOnce calls)
    (f : String) (schedule : List Nat) :
    Pool.Paid (liveLedger famOf TokenDoc.familyId f) (fun _ _ _ => True) 1
      ((inFlight service calls).exec schedule) := by
  refine paid_inFlight hdrawn.family (fun i => ?_) schedule
  have hcall := hgen i
  cases hi : calls i with
  | rotate a =>
    rw [hi] at hcall
    cases hcheck : checkRefreshToken service a with
    | error e =>
      rw [program_rotate_of_error hcheck]
      trivial
    | ok c =>
      have hold : ∀ s d, Consistent famOf s → (useToken c.tokenId s).2 = some d →
          d.familyId = c.familyId := fun s d hs hd => familyId_of_useToken hcall hcheck hs hd
      refine pays_rotate hcheck (hcall c hcheck).2 hold ?_ ?_ ?_
      · exact Nat.le_add_left _ _
      · exact fun _ _ => trivial
      · exact fun _ _ _ => trivial
  | login a =>
    rw [hi] at hcall
    refine pays_login hcall ?_
    show (if a.draw.family = f then 1 else 0) ≤ if some a.draw.family = some f then 1 else 0
    simp
  | _ => exact pays_revocation (by trivial) _

theorem paid_token (hgen : ∀ i, Genuine service famOf (calls i)) (hdrawn : DrawnOnce calls)
    {token t : String}
    (ht : ∀ a c, a.token = token → checkRefreshToken service a = .ok c → c.tokenId = t)
    (schedule : List Nat) :
    Pool.Paid (liveLedger famOf TokenDoc.tokenId t)
      (fun i m r => ∀ a, calls i = .rotate a → a.token = token → (∃ p, r = .pair (.ok p)) → 1 ≤ m) 1
      ((inFlight service calls).exec schedule) := by
  refine paid_inFlight hdrawn.token (fun i => ?_) schedule
  have hcall := hgen i
  cases hi : calls i with
  | rotate a =>
    rw [hi] at hcall
    cases hcheck : checkRefreshToken service a with
    | error e =>
      rw [program_rotate_of_error hcheck]
      rintro a' ha' htoken ⟨p, hp⟩
      cases hp
    | ok c =>
      have hcredit : creditOf tokenDrawn t (.rotate a) = share t a.draw.tokenId := by
        simp [creditOf, tokenDrawn, share]
      rw [hcredit]
      have hold : ∀ s d, Consistent famOf s → (useToken c.tokenId s).2 = some d →
          d.tokenId = c.tokenId := fun s d _ hd => tokenId_of_useToken hd
      refine pays_rotate hcheck (hcall c hcheck).2 hold ?_ ?_ ?_
      · exact Nat.le_add_right _ _
      · rintro m e a' ha' htoken ⟨p, hp⟩
        cases hp
      · rintro m p hpaid a' ha' htoken -
        cases ha'
        have hshare : share t c.tokenId = 1 := by
          rw [ht a c htoken hcheck]
          exact if_pos rfl
        have hdrawnShare :
            share t (drawnToken service a.draw c.username c.role c.familyId).tokenId =
              share t a.draw.tokenId := rfl
        omega
  | login a =>
    rw [hi] at hcall
    refine (pays_login hcall ?_).mono fun m r _ a' ha' => by cases ha'
    show (if a.draw.tokenId = t then 1 else 0) ≤ if some a.draw.tokenId = some t then 1 else 0
    simp
  | _ => exact (pays_revocation (by trivial) _).mono fun m r _ a' ha' => by cases ha'

/-- In every interleaving of logins, rotations and revocations each family has at
most one unused token, and of the rotations of one token at most one returns a
pair. -/
theorem one_live_token (service : Service) (famOf : String → String) (calls : Nat → AuthCall)
    (hjwt : CarriesClaims service) (hgen : ∀ i, Genuine service famOf (calls i))
    (hdrawn : DrawnOnce calls) (schedule : List Nat) :
    let c := (inFlight service calls).exec schedule
    (∀ f, c.state.refreshTokens.countP (fun d => d.familyId == f && !d.used) ≤ 1) ∧
      ∀ i j a b, calls i = .rotate a → calls j = .rotate b → a.token = b.token →
        (∃ p, (c.procs i).result? = some (.pair (.ok p))) →
        (∃ p, (c.procs j).result? = some (.pair (.ok p))) → i = j := by
  intro c
  constructor
  · intro f
    obtain ⟨credit, -, S, hsum⟩ := (paid_family hgen hdrawn f schedule).funded
    exact le_trans (Nat.le_add_right _ _) (hsum S (Finset.Subset.refl S))
  · rintro i j a b ha hb htoken ⟨p, hp⟩ ⟨q, hq⟩
    by_contra hne
    obtain ⟨t, ht⟩ := exists_tokenId hjwt a.token
    obtain ⟨credit, hpays, S, hsum⟩ := (paid_token hgen hdrawn ht schedule).funded
    have hi : 1 ≤ credit i := (hpays i).of_result hp a ha rfl ⟨p, rfl⟩
    have hj : 1 ≤ credit j := (hpays j).of_result hq b hb htoken.symm ⟨q, rfl⟩
    have hpair := Pool.pair_le_sum hne credit S
    have hone : _ + _ ≤ 1 := hsum (insert i (insert j S))
      ((Finset.subset_insert j S).trans (Finset.subset_insert i _))
    omega

end Runs

def sampleCalls : Nat → AuthCall
  | 0 => .login sampleLogin
  | 1 => .rotate (sampleRotation "first" "second")
  | 2 => .rotate (sampleRotation "first" "third")
  | _ => .revokeUserTokens "bob"

theorem sampleService_carries : CarriesClaims sampleService :=
  fun _ _ _ _ _ h h' => Except.ok.inj (h.symm.trans h')

theorem sampleCalls_genuine (i : Nat) : Genuine sampleService (fun _ => "family") (sampleCalls i) :=
  match i with
  | 0 => rfl
  | 1 => sampleRotation_genuine (Or.inl rfl)
  | 2 => sampleRotation_genuine (Or.inl rfl)
  | _ + 3 => trivial

theorem sampleCalls_drawnOnce : DrawnOnce sampleCalls where
  token i j t hi hj := by
    match i, j with
    | 0, 0 | 1, 1 | 2, 2 => rfl
    | 0, 1 | 0, 2 | 1, 0 | 1, 2 | 2, 0 | 2, 1 =>
      have heq := hi.trans hj.symm
      simp [tokenDrawn, sampleCalls, sampleLogin, sampleRotation] at heq
    | _ + 3, _ => cases hi
    | _, _ + 3 => cases hj
  family i j f hi hj := by
    match i, j with
    | 0, 0 => rfl
    | 1, _ | 2, _ | _ + 3, _ => cases hi
    | _, 1 | _, 2 | _, _ + 3 => cases hj

/-- The second rotation finds the token used before the first one inserts. -/
theorem one_live_token_replayed :
    ((inFlight sampleService sampleCalls).exec [0, 0, 1, 2, 1, 1]).state.refreshTokens.countP
        (fun d => d.familyId == "family" && !d.used) ≤ 1 ∧
      ¬((∃ p, (((inFlight sampleService sampleCalls).exec [0, 0, 1, 2, 1, 1]).procs 1).result? =
          some (.pair (.ok p))) ∧
        ∃ p, (((inFlight sampleService sampleCalls).exec [0, 0, 1, 2, 1, 1]).procs 2).result? =
          some (.pair (.ok p))) := by
  obtain ⟨hlive, hpairs⟩ := one_live_token sampleService (fun _ => "family") sampleCalls
    sampleService_carries sampleCalls_genuine sampleCalls_drawnOnce [0, 0, 1, 2, 1, 1]
  refine ⟨hlive "family", fun h => ?_⟩
  have hsame : 1 = 2 := hpairs 1 2 _ _ rfl rfl rfl h.1 h.2
  cases hsame

end Sentora.Auth
