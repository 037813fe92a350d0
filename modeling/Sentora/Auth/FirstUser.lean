import Sentora.Auth.BlockedAccounts
import Sentora.Lib.Ledger

/-!
# The first user

How many accounts get the elevated role when registrations and provisionings run
side by side on an empty store: `register` of `domains/auth/router.py`,
`claim_first_user` of `domains/auth/first_user.py` and `provision_sso_user`.

The claim is taken before the user is inserted and is not given back.  A call that
has taken it counts as an account with the role until it inserts one, and where it
fails instead nobody has the role.
-/

namespace Sentora.Auth.FirstUser

open Lib Process
open Logins
export Logins (App Failure getUserByUsername)

structure SignUpApp extends App where
  passwordMinLength : Nat
  passwordCheckBreached : Bool
  hashpw : String → String → Option String

/-- The payload, whether the address is over the limit, what the breach service
answers, what is drawn, the encrypted secret, and the text of the driver's error
on a duplicate. -/
structure Registration where
  username : String
  email : String
  password : String
  limited : Bool := false
  breached : Bool := false
  id : String
  salt : String
  totpSecret : String
  errMsg : String := ""

def registeredDoc (r : Registration) (role : UserRole) (hashedPassword : String) : UserDoc where
  id := r.id
  username := r.username
  email := r.email
  role := some role.value
  disabled := some false
  status := some AccountStatus.active.value
  hashedPassword := some hashedPassword
  totpSecret := some r.totpSecret
  totpEnabled := some false
  failedLoginAttempts := some 0

def occursIn (part text : String) : Bool :=
  text.toList.tails.any fun rest => part.toList.isPrefixOf rest

def conflictDetail (r : Registration) : String :=
  if occursIn "email" r.errMsg then "Email '" ++ r.email ++ "' is already registered"
  else if occursIn "username" r.errMsg then "Username '" ++ r.username ++ "' is already taken"
  else "Username or email is already taken"

structure UserResponse where
  id : String
  username : String
  email : String
  role : UserRole
  disabled : Bool
  totpEnabled : Bool
  status : AccountStatus

/-- `create_user`, where a duplicate becomes a conflict. -/
def createUser (r : Registration) (role : UserRole) (hashedPassword : String) :
    Login UserResponse := do
  let inserted ← atomic .insertUser (insertUser (registeredDoc r role hashedPassword))
  throwIf (!inserted) (httpError 409 (conflictDetail r))
  pure ⟨r.id, r.username, r.email, role, false, false, .active⟩

def register (app : SignUpApp) (r : Registration) : Login UserResponse := do
  throwIf r.limited (httpError 429 "Rate limit exceeded — max 5 requests per 300s")
  throwIf (r.password.length < app.passwordMinLength)
    (httpError 400 ("Password must be at least " ++ toString app.passwordMinLength ++
      " characters"))
  throwIf (app.passwordCheckBreached && r.breached)
    (httpError 400 "This password has been found in a data breach")
  let existing ← getUserByUsername app.toApp r.username
  throwIf existing.isSome (httpError 409 ("Username '" ++ r.username ++ "' is already taken"))
  let role ← claimFirstUser app.toApp
  let hashedPassword ← orThrow .raised (app.hashpw r.password r.salt)
  createUser r role hashedPassword

inductive SignUp where
  | register (r : Registration)
  | provision (draw : SsoDraw) (claims : SsoClaims) (provider : Provider) (value : String)

inductive Reply where
  | registered (user : UserResponse)
  | provisioned (user : User)

def signUp (app : SignUpApp) : SignUp → Login Reply
  | .register r => Reply.registered <$> register app r
  | .provision draw claims provider value =>
    Reply.provisioned <$> provisionSsoUser app.toApp draw claims provider value

def firstUserRole (app : SignUpApp) : UserRole := if app.isOnprem then .admin else .superAdmin

def isElevated (app : SignUpApp) (d : UserDoc) : Bool := d.role == some (firstUserRole app).value

def stock (app : SignUpApp) (s : State) : Nat :=
  s.users.countP (isElevated app) + if s.firstUserClaimed then 0 else 1

/-- The accounts with the role that the next step of a call inserts into an empty
store. -/
def inserts {α : Type} (app : SignUpApp) : Process State Op α → Nat
  | .ret _ => 0
  | .step l u _ =>
    if l = .insertUser then (u ⟨[], .empty, false, [], []⟩).users.countP (isElevated app) else 0

def Fails {α : Type} (p : Process State Op (Except Failure α)) : Prop :=
  ∃ e, p.result? = some (.error e)

/-- The next step of the call takes the claim, or inserts an account with the
role. -/
def Claims {α : Type} (app : SignUpApp) (p : Process State Op α) (s : State) : Prop :=
  (p.next? = some .claimFirstUser ∧ s.firstUserClaimed = false) ∨ inserts app p = 1

abbrev SignUpPool (n : Nat) := Pool (Fin n) State Op (fun _ => Except Failure Reply)

def LosesClaim {n : Nat} (app : SignUpApp) (c : SignUpPool n) (i : Fin n) : Prop :=
  Claims app (c.procs i) c.state ∧ Fails ((c.turn i).procs i)

/-- What a step from `s` to `t` does, where `n` is what it is about to insert and
`p` what comes after it. -/
structure Step {α : Type} (app : SignUpApp) (l : Op) (n : Nat) (s t : State)
    (p : Process State Op (Except Failure α)) : Prop where
  stays : s.firstUserClaimed = true → t.firstUserClaimed = true
  claims : l = .claimFirstUser → t.firstUserClaimed = true
  users : l ≠ .insertUser → t.users.length = s.users.length
  next : p.next? = some .insertUser → l = .claimFirstUser ∨ l = .insertUser
  keeps : ¬(((l = .claimFirstUser ∧ s.firstUserClaimed = false) ∨ n = 1) ∧ Fails p) →
    stock app t + inserts app p = stock app s + n
  loses : ((l = .claimFirstUser ∧ s.firstUserClaimed = false) ∨ n = 1) → Fails p →
    stock app t + inserts app p + 1 = stock app s + n

def Lawful {α : Type} (app : SignUpApp) : Process State Op (Except Failure α) → Prop
  | .ret _ => True
  | .step l u k => ∀ s, Step app l (inserts app (.step l u k)) s (u s) (k s)

section Steps

variable {α β : Type} {app : SignUpApp} {s : State}

def share (app : SignUpApp) (role : UserRole) : Nat := if role = firstUserRole app then 1 else 0

theorem countP_singleton_role {doc : UserDoc} {role : UserRole}
    (hrole : doc.role = some role.value) :
    [doc].countP (isElevated app) = share app role := by
  have hsame : role.value = (firstUserRole app).value ↔ role = firstUserRole app := by
    constructor
    · intro h
      have hread := congrArg UserRole.ofValue h
      rw [UserRole.ofValue_value, UserRole.ofValue_value] at hread
      exact Option.some.inj hread
    · exact congrArg _
  simp [isElevated, share, hrole, hsame]

theorem inserts_insertUser {doc : UserDoc} {role : UserRole} (hrole : doc.role = some role.value)
    (k : State → Process State Op α) :
    inserts app (.step .insertUser (fun s => (insertUser doc s).1) k) = share app role := by
  rw [← countP_singleton_role hrole]
  rfl

theorem stock_insertUser {doc : UserDoc} {role : UserRole} (hrole : doc.role = some role.value)
    (hinserted : (insertUser doc s).2 = true) :
    stock app (insertUser doc s).1 = stock app s + share app role := by
  unfold insertUser at hinserted ⊢
  split at hinserted
  · cases hinserted
  · rename_i hclash
    rw [if_neg hclash]
    show (s.users ++ [doc]).countP (isElevated app) + (if s.firstUserClaimed then 0 else 1) = _
    rw [List.countP_append, countP_singleton_role hrole]
    unfold stock
    omega

theorem insertUser_refused {doc : UserDoc} (h : (insertUser doc s).2 = false) :
    (insertUser doc s).1 = s := by
  unfold insertUser at h ⊢
  split at h
  · rename_i hclash
    rw [if_pos hclash]
  · cases h

theorem insertUser_claimed (doc : UserDoc) (s : State) :
    (insertUser doc s).1.firstUserClaimed = s.firstUserClaimed := by
  unfold insertUser
  split <;> rfl

theorem inserts_ret (a : α) : inserts app (.ret a : Process State Op α) = 0 := rfl

theorem not_fails_ok (a : α) : ¬Fails (.ret (.ok a) : Process State Op (Except Failure α)) :=
  fun ⟨_, h⟩ => by cases h

theorem fails_error (e : Failure) : Fails (.ret (.error e) : Process State Op (Except Failure α)) :=
  ⟨e, rfl⟩

theorem step_insertUser {doc : UserDoc} {role : UserRole} (hrole : doc.role = some role.value)
    {p : Process State Op (Except Failure α)}
    (haccepted : (insertUser doc s).2 = true → ∃ a, p = .ret (.ok a))
    (hrefused : (insertUser doc s).2 = false →
      (∃ e, p = .ret (.error e)) ∨ (¬Fails p ∧ inserts app p = share app role)) :
    Step app .insertUser (share app role) s (insertUser doc s).1 p := by
  have hshare : share app role = 0 ∨ share app role = 1 := by
    unfold share
    split
    · exact Or.inr rfl
    · exact Or.inl rfl
  refine ⟨?_, (fun h => by cases h), fun h => absurd rfl h, fun _ => Or.inr rfl, ?_, ?_⟩
  · rw [insertUser_claimed]
    exact id
  · intro hkeeps
    cases hinserted : (insertUser doc s).2 with
    | true =>
      obtain ⟨a, rfl⟩ := haccepted hinserted
      exact stock_insertUser hrole hinserted
    | false =>
      rw [insertUser_refused hinserted]
      rcases hrefused hinserted with ⟨e, rfl⟩ | ⟨-, hagain⟩
      · have hzero : share app role = 0 :=
          hshare.resolve_right fun hone => hkeeps ⟨Or.inr hone, fails_error e⟩
        rw [hzero]
        rfl
      · rw [hagain]
  · intro hclaims hfails
    cases hinserted : (insertUser doc s).2 with
    | true =>
      obtain ⟨a, rfl⟩ := haccepted hinserted
      exact absurd hfails (not_fails_ok a)
    | false =>
      rw [insertUser_refused hinserted]
      rcases hrefused hinserted with ⟨e, rfl⟩ | ⟨hgoes, -⟩
      · have hone : share app role = 1 := hclaims.resolve_left fun h => by cases h.1
        rw [hone]
        rfl
      · exact absurd hfails hgoes

def Finishes (g : Except Failure α → Process State Op (Except Failure β)) : Prop :=
  ∀ r, (∃ b, g r = .ret (.ok b)) ∧ (∃ a, r = .ok a) ∨ ∃ e, r = .error e ∧ g r = .ret (.error e)

section Last

variable {g : Except Failure α → Process State Op (Except Failure β)}
  {p : Process State Op (Except Failure α)}

theorem finishes_map (f : α → β) : Finishes fun r : Except Failure α =>
    match r with
    | .ok a => (.ret (.ok (f a)) : Process State Op (Except Failure β))
    | .error e => .ret (.error e) := by
  intro r
  cases r with
  | ok a => exact Or.inl ⟨⟨_, rfl⟩, a, rfl⟩
  | error e => exact Or.inr ⟨e, rfl, rfl⟩

theorem fails_bind_iff (hg : Finishes g) : Fails (p >>= g) ↔ Fails p := by
  cases p with
  | ret r =>
    show Fails (g r) ↔ _
    rcases hg r with ⟨⟨b, hb⟩, a, ha⟩ | ⟨e, he, hge⟩
    · rw [hb, ha]
      exact iff_of_false (not_fails_ok b) (not_fails_ok a)
    · rw [hge, he]
      exact iff_of_true (fails_error e) (fails_error e)
  | step l u k => exact iff_of_false (fun ⟨_, h⟩ => by cases h) (fun ⟨_, h⟩ => by cases h)

theorem next?_bind (hg : Finishes g) : (p >>= g).next? = p.next? := by
  cases p with
  | ret r =>
    show (g r).next? = _
    rcases hg r with ⟨⟨b, hb⟩, -⟩ | ⟨e, -, hge⟩
    · rw [hb]
      rfl
    · rw [hge]
      rfl
  | step l u k => rfl

theorem inserts_bind (hg : Finishes g) : inserts app (p >>= g) = inserts app p := by
  cases p with
  | ret r =>
    show inserts app (g r) = _
    rcases hg r with ⟨⟨b, hb⟩, -⟩ | ⟨e, -, hge⟩
    · rw [hb]
      rfl
    · rw [hge]
      rfl
  | step l u k => rfl

theorem Step.bind (hg : Finishes g) {l : Op} {n : Nat} {t : State} (h : Step app l n s t p) :
    Step app l n s t (p >>= g) := by
  refine ⟨h.stays, h.claims, h.users, ?_, ?_, ?_⟩
  · rw [next?_bind hg]
    exact h.next
  · rw [fails_bind_iff hg, inserts_bind hg]
    exact h.keeps
  · rw [fails_bind_iff hg, inserts_bind hg]
    exact h.loses

theorem always_lawful_bind (hg : Finishes g) (hp : Always (Lawful app) p) :
    Always (Lawful app) (p >>= g) := by
  induction p with
  | ret r =>
    show Always (Lawful app) (g r)
    rcases hg r with ⟨⟨b, hb⟩, -⟩ | ⟨e, -, hge⟩
    · rw [hb]
      trivial
    · rw [hge]
      trivial
  | step l u k ih => exact ⟨fun s => (hp.1 s).bind hg, fun s => ih s (hp.2 s)⟩

end Last

/-- No step touches the claim, or inserts, or changes a role. -/
def Quiet : Process State Op α → Prop
  | .ret _ => True
  | .step l u k => (l ≠ .claimFirstUser ∧ l ≠ .insertUser) ∧
      ∀ s, ((u s).firstUserClaimed = s.firstUserClaimed ∧
        (u s).users.map UserDoc.role = s.users.map UserDoc.role) ∧ Quiet (k s)

theorem stock_of_roles {t : State} (hclaimed : t.firstUserClaimed = s.firstUserClaimed)
    (hroles : t.users.map UserDoc.role = s.users.map UserDoc.role) : stock app t = stock app s := by
  have hcount : ∀ users : List UserDoc, users.countP (isElevated app) =
      (users.map UserDoc.role).countP (fun role => role == some (firstUserRole app).value) := by
    intro users
    rw [List.countP_map]
    rfl
  unfold stock
  rw [hcount, hcount, hroles, hclaimed]

/-- What comes after a call's quiet steps begins with one that is not an
insertion. -/
def Begins (app : SignUpApp) (p : Process State Op (Except Failure β)) : Prop :=
  Always (Lawful app) p ∧ p.next? ≠ some .insertUser

theorem inserts_of_next? {p : Process State Op α} (h : p.next? ≠ some .insertUser) :
    inserts app p = 0 := by
  cases p with
  | ret a => rfl
  | step l u k => exact if_neg fun hl => h (congrArg some hl)

theorem Quiet.begins_bind {p : Process State Op α} {f : α → Process State Op (Except Failure β)}
    (hp : Quiet p) (hf : ∀ a, Begins app (f a)) : Begins app (p >>= f) := by
  induction p with
  | ret a => exact hf a
  | step l u k ih =>
    obtain ⟨⟨hclaim, hinsert⟩, hstep⟩ := hp
    have hrest : ∀ s, Begins app (k s >>= f) := fun s => ih s (hstep s).2
    refine ⟨⟨fun s => ?_, fun s => (hrest s).1⟩, fun h => hinsert (Option.some.inj h)⟩
    obtain ⟨hclaimed, hroles⟩ := (hstep s).1
    have hnone : inserts app (k s >>= f) = 0 := inserts_of_next? (hrest s).2
    have hown : inserts app (.step l u fun s => k s >>= f) = 0 := if_neg hinsert
    have hstock : stock app (u s) = stock app s := stock_of_roles hclaimed hroles
    show Step app l (inserts app (.step l u fun s => k s >>= f)) s (u s) (k s >>= f)
    rw [hown]
    refine ⟨?_, fun h => absurd h hclaim, fun _ => ?_, fun h => absurd h (hrest s).2, ?_, ?_⟩
    · rw [hclaimed]
      exact id
    · rw [← List.length_map UserDoc.role, hroles, List.length_map]
    · intro _
      rw [hnone, hstock]
    · rintro (h | h) -
      · exact absurd h.1 hclaim
      · cases h

theorem Quiet.bind {p : Process State Op α} {f : α → Process State Op β} (hp : Quiet p)
    (hf : ∀ a, Quiet (f a)) : Quiet (p >>= f) := by
  induction p with
  | ret a => exact hf a
  | step l u k ih => exact ⟨hp.1, fun s => ⟨(hp.2 s).1, ih s (hp.2 s).2⟩⟩

theorem quiet_login {p : Login α} {f : α → Login β} (hp : Quiet p.run)
    (hf : ∀ a, Quiet (f a).run) : Quiet (p >>= f).run := by
  refine Quiet.bind hp fun r => ?_
  cases r with
  | ok a => exact hf a
  | error e => trivial

theorem begins_error (e : Failure) :
    Begins app (.ret (.error e) : Process State Op (Except Failure α)) :=
  ⟨trivial, fun h => by cases h⟩

theorem bind_ret (p : Process State Op α) : p >>= (fun a => .ret a) = p := by
  induction p with
  | ret a => rfl
  | step l u k ih =>
    show Process.step l u (fun s => k s >>= fun a => .ret a) = _
    congr 1
    funext s
    exact ih s

theorem Quiet.begins {p : Process State Op (Except Failure α)} (hp : Quiet p) : Begins app p := by
  rw [← bind_ret p]
  exact hp.begins_bind fun _ => ⟨trivial, fun h => by cases h⟩

theorem begins_login {p : Login α} {f : α → Login β} (hp : Quiet p.run)
    (hf : ∀ a, Begins app (f a).run) : Begins app (p >>= f).run := by
  refine Quiet.begins_bind hp fun r => ?_
  cases r with
  | ok a => exact hf a
  | error e => exact begins_error e

theorem quiet_lookUp {op : Op} (hop : op ≠ .claimFirstUser ∧ op ≠ .insertUser) (f : State → α) :
    Quiet (lookUp op f).run :=
  ⟨hop, fun _ => ⟨⟨rfl, rfl⟩, trivial⟩⟩

theorem quiet_ofExcept (r : Except Failure α) : Quiet (ofExcept r : Login α).run := by
  cases r with
  | ok a => trivial
  | error e => trivial

theorem quiet_throwIf (c : Bool) (e : Failure) : Quiet (throwIf c e : Login Unit).run := by
  cases c with
  | true => trivial
  | false => trivial

theorem quiet_getUserByUsername (app : App) (username : String) :
    Quiet (getUserByUsername app username).run := by
  refine quiet_login (quiet_lookUp (by decide) _) fun found => ?_
  cases found with
  | none => trivial
  | some doc =>
    show Quiet (some <$> toUser app doc).run
    unfold toUser
    cases (docToUser app.decrypt doc).mapError Logins.Failure.unreadable with
    | ok u => trivial
    | error e => trivial

theorem quiet_uniqueUsernameFrom (base random : String) (n : Nat) (username : String) :
    Quiet (uniqueUsernameFrom base random n username).run := by
  induction n generalizing username with
  | zero => trivial
  | succ n ih =>
    refine quiet_login (quiet_lookUp (by decide) _) fun taken => ?_
    cases taken with
    | true => exact ih _
    | false => trivial

theorem quiet_findByEmail (claims : SsoClaims) : Quiet (findByEmail claims).run := by
  unfold findByEmail
  cases present claims.email with
  | none => trivial
  | some email =>
    dsimp only
    split
    · exact quiet_lookUp (by decide) _
    · trivial

theorem quiet_linkSubject (provider : Provider) (value : String) (doc : UserDoc) :
    Quiet (write .linkSubject (linkSubject provider value doc)).run := by
  refine ⟨by decide, fun s => ⟨⟨rfl, ?_⟩, trivial⟩⟩
  refine map_updateFirst (fun d => ?_) s.users
  cases provider <;> rfl

/-- The next step of the call inserts an account with the role. -/
structure Inserting (app : SignUpApp) (role : UserRole)
    (p : Process State Op (Except Failure α)) : Prop where
  lawful : Always (Lawful app) p
  goes : ¬Fails p
  inserts : inserts app p = share app role

theorem inserting_atomic {doc : UserDoc} {role : UserRole} (hrole : doc.role = some role.value)
    {f : Bool → Login α} (haccepted : ∃ a, (f true).run = .ret (.ok a))
    (hrefused : (∃ e, (f false).run = .ret (.error e)) ∨ Inserting app role (f false).run) :
    Inserting app role (Logins.atomic Op.insertUser (insertUser doc) >>= f).run := by
  have hprocess : (Logins.atomic Op.insertUser (insertUser doc) >>= f).run =
    Process.step Op.insertUser
      (fun s => (insertUser doc s).1) fun s => (f (insertUser doc s).2).run := rfl
  rw [hprocess]
  refine ⟨⟨fun s => ?_, fun s => ?_⟩, fun ⟨_, h⟩ => (by cases h), inserts_insertUser hrole _⟩
  · rw [inserts_insertUser hrole]
    refine step_insertUser hrole (fun h => ?_) fun h => ?_
    · dsimp only
      rw [h]
      exact haccepted
    · dsimp only
      rw [h]
      exact hrefused.imp_right fun hagain => ⟨hagain.goes, hagain.inserts⟩
  · dsimp only
    cases (insertUser doc s).2 with
    | true =>
      obtain ⟨a, ha⟩ := haccepted
      rw [ha]
      trivial
    | false =>
      rcases hrefused with ⟨e, he⟩ | hagain
      · rw [he]
        trivial
      · exact hagain.lawful

theorem Inserting.bind {role : UserRole} {p : Process State Op (Except Failure α)}
    {g : Except Failure α → Process State Op (Except Failure β)} (h : Inserting app role p)
    (hg : Finishes g) : Inserting app role (p >>= g) := by
  refine ⟨always_lawful_bind hg h.lawful, ?_, ?_⟩
  · rw [fails_bind_iff hg]
    exact h.goes
  · rw [inserts_bind hg]
    exact h.inserts

theorem inserting_createUser (r : Registration) (role : UserRole) (hashedPassword : String) :
    Inserting app role (createUser r role hashedPassword).run :=
  inserting_atomic rfl ⟨_, rfl⟩ (Or.inl ⟨_, rfl⟩)

theorem inserting_insertNewUser {newDoc : String → UserDoc} {role : UserRole}
    (hrole : ∀ username, (newDoc username).role = some role.value) (draw : SsoDraw)
    (attempts : Nat) (username : String) :
    Inserting app role (insertNewUser newDoc draw attempts username).run := by
  induction attempts generalizing username with
  | zero => exact inserting_atomic (hrole _) ⟨_, rfl⟩ (Or.inl ⟨_, rfl⟩)
  | succ attempts ih => exact inserting_atomic (hrole _) ⟨_, rfl⟩ (Or.inr (ih _))

theorem share_firstUserRole : share app (firstUserRole app) = 1 := if_pos rfl

theorem share_viewer : share app .viewer = 0 := by
  refine if_neg fun h => ?_
  unfold firstUserRole at h
  split at h
  · cases h
  · cases h

theorem begins_claim {f : UserRole → Login β}
    (hf : ∀ role, role = firstUserRole app ∨ role = .viewer →
      (∃ e, (f role).run = .ret (.error e)) ∨ Inserting app role (f role).run) :
    Begins app (claimFirstUser app.toApp >>= f).run := by
  let got := fun s : State => if !s.firstUserClaimed then firstUserRole app else .viewer
  have hgot : ∀ s, got s = firstUserRole app ∨ got s = .viewer := by
    intro s
    cases hclaimed : s.firstUserClaimed with
    | true => exact Or.inr (by simp [got, hclaimed])
    | false => exact Or.inl (by simp [got, hclaimed])
  have hprocess : (claimFirstUser app.toApp >>= f).run = Process.step Op.claimFirstUser
      (fun s => { s with firstUserClaimed := true }) fun s => (f (got s)).run := rfl
  rw [hprocess]
  have hlawful : ∀ s, Always (Lawful app) (f (got s)).run := by
    intro s
    rcases hf _ (hgot s) with ⟨e, he⟩ | hinserting
    · rw [he]
      trivial
    · exact hinserting.lawful
  refine ⟨⟨fun s => ?_, hlawful⟩, fun h => by cases h⟩
  have hnext := hf _ (hgot s)
  show Step app .claimFirstUser 0 s { s with firstUserClaimed := true } (f (got s)).run
  refine ⟨fun _ => rfl, fun _ => rfl, fun _ => rfl, fun _ => Or.inl rfl, ?_, ?_⟩
  · intro hkeeps
    cases hclaimed : s.firstUserClaimed with
    | true =>
      have hviewer : got s = .viewer := by simp [got, hclaimed]
      have hnone : inserts app (f (got s)).run = 0 := by
        rcases hnext with ⟨e, he⟩ | hinserting
        · rw [he]
          rfl
        · rw [hinserting.inserts, hviewer, share_viewer]
      rw [hnone]
      simp [stock, hclaimed]
    | false =>
      have hfirst : got s = firstUserRole app := by simp [got, hclaimed]
      rcases hnext with ⟨e, he⟩ | hinserting
      · refine absurd ⟨Or.inl ⟨rfl, hclaimed⟩, ?_⟩ hkeeps
        rw [he]
        exact fails_error e
      · rw [hinserting.inserts, hfirst, share_firstUserRole]
        simp [stock, hclaimed]
  · intro hclaims hfails
    rcases hclaims with ⟨-, hclaimed⟩ | h
    · rcases hnext with ⟨e, he⟩ | hinserting
      · rw [he, inserts_ret]
        simp [stock, hclaimed]
      · exact absurd hfails hinserting.goes
    · cases h

theorem begins_register (r : Registration) : Begins app (register app r).run := by
  refine begins_login (quiet_throwIf _ _) fun _ => ?_
  refine begins_login (quiet_throwIf _ _) fun _ => ?_
  refine begins_login (quiet_throwIf _ _) fun _ => ?_
  refine begins_login (quiet_getUserByUsername _ _) fun existing => ?_
  refine begins_login (quiet_throwIf _ _) fun _ => ?_
  refine begins_claim fun role _ => ?_
  cases app.hashpw r.password r.salt with
  | none => exact Or.inl ⟨.raised, rfl⟩
  | some hashedPassword => exact Or.inr (inserting_createUser r role hashedPassword)

def PlainDefaults (app : SignUpApp) : Prop :=
  ∀ provider, ssoRole app.toApp provider .viewer ≠ firstUserRole app

theorem share_ssoRole (hroles : PlainDefaults app) (provider : Provider) {role : UserRole}
    (h : role = firstUserRole app ∨ role = .viewer) :
    share app (ssoRole app.toApp provider role) = share app role := by
  rcases h with rfl | rfl
  · have hne : firstUserRole app ≠ .viewer := by
      intro h
      have hzero : share app .viewer = 0 := share_viewer
      rw [← h, share_firstUserRole] at hzero
      cases hzero
    rw [ssoRole, if_pos hne]
  · rw [share_viewer]
    exact if_neg (hroles provider)

theorem begins_createSsoUser (hroles : PlainDefaults app) (draw : SsoDraw) (claims : SsoClaims)
    (provider : Provider) (value : String) :
    Begins app (createSsoUser app.toApp draw claims provider value).run := by
  refine begins_login (quiet_uniqueUsernameFrom _ _ _ _) fun username => ?_
  refine begins_claim fun role hrole => ?_
  have hdoc : ∀ username, (newUserDoc provider value claims (ssoRole app.toApp provider role) draw
      username).role = some (ssoRole app.toApp provider role).value := by
    intro username
    cases provider <;> rfl
  have hinserting : Inserting app (ssoRole app.toApp provider role) (insertNewUser (newUserDoc
      provider value claims (ssoRole app.toApp provider role) draw) draw 5 username).run :=
    inserting_insertNewUser hdoc draw 5 username
  have hsame : Inserting app role (insertNewUser (newUserDoc provider value claims
      (ssoRole app.toApp provider role) draw) draw 5 username).run :=
    ⟨hinserting.lawful, hinserting.goes,
      hinserting.inserts.trans (share_ssoRole hroles provider hrole)⟩
  refine Or.inr (hsame.bind fun r => ?_)
  cases r with
  | ok doc => exact Or.inl ⟨⟨_, rfl⟩, _, rfl⟩
  | error e => exact Or.inr ⟨_, rfl, rfl⟩

theorem begins_provisionSsoUser (hroles : PlainDefaults app) (draw : SsoDraw) (claims : SsoClaims)
    (provider : Provider) (value : String) :
    Begins app (provisionSsoUser app.toApp draw claims provider value).run := by
  refine begins_login (quiet_lookUp (by decide) _) fun found => ?_
  cases found with
  | some doc => exact (quiet_ofExcept _).begins
  | none =>
    refine begins_login (quiet_findByEmail claims) fun matched => ?_
    cases matched with
    | none => exact begins_createSsoUser hroles draw claims provider value
    | some doc =>
      dsimp only
      split
      · refine begins_login (quiet_linkSubject provider value doc) fun _ => ?_
        exact (quiet_ofExcept _).begins
      · exact begins_createSsoUser hroles draw claims provider value

theorem Begins.map {p : Login α} (h : Begins app p.run) (f : α → β) :
    Begins app (f <$> p).run := by
  have hprocess : (f <$> p).run = p.run >>= fun r : Except Failure α =>
      match r with
      | .ok a => (.ret (.ok (f a)) : Process State Op (Except Failure β))
      | .error e => .ret (.error e) := by
    show p.run >>= _ = _
    congr 1
    funext r
    cases r <;> rfl
  rw [hprocess]
  refine ⟨always_lawful_bind (finishes_map f) h.1, ?_⟩
  rw [next?_bind (finishes_map f)]
  exact h.2

theorem begins_signUp (hroles : PlainDefaults app) (call : SignUp) :
    Begins app (signUp app call).run := by
  cases call with
  | register r => exact (begins_register r).map Reply.registered
  | provision draw claims provider value =>
    exact (begins_provisionSsoUser hroles draw claims provider value).map Reply.provisioned

end Steps

def signUps {n : Nat} (app : SignUpApp) (calls : Fin n → SignUp) (s : State) : SignUpPool n :=
  ⟨s, fun i => (signUp app (calls i)).run⟩

/-- The accounts with the role, the free claim, and the calls about to insert such an
account. -/
def total {n : Nat} (app : SignUpApp) (c : SignUpPool n) : Nat :=
  stock app c.state + ∑ i, inserts app (c.procs i)

/-- Every call goes on lawfully, and nobody inserts before the claim is taken. -/
structure Orderly {n : Nat} (app : SignUpApp) (c : SignUpPool n) : Prop where
  lawful : ∀ i, Always (Lawful app) (c.procs i)
  ordered : ∀ i, (c.procs i).next? = some .insertUser → c.state.firstUserClaimed = true
  claimed : c.state.users ≠ [] → c.state.firstUserClaimed = true

section Runs

variable {n : Nat} {app : SignUpApp} {c : SignUpPool n} {i : Fin n}
variable {k : State → Process State Op (Except Failure Reply)} {u : State → State} {l : Op}

theorem step_of_lawful (h : Orderly app c) (hp : c.procs i = .step l u k) :
    Step app l (inserts app (c.procs i)) c.state (u c.state) (k c.state) := by
  have hi := (h.lawful i).here
  rw [hp] at hi ⊢
  exact hi c.state

theorem procs_turn (hp : c.procs i = .step l u k) :
    (c.turn i).procs i = k c.state := by
  rw [Pool.turn_of_step hp]
  exact Function.update_self ..

theorem state_turn (hp : c.procs i = .step l u k) :
    (c.turn i).state = u c.state := by
  rw [Pool.turn_of_step hp]

theorem Orderly.turn (h : Orderly app c) (i : Fin n) : Orderly app (c.turn i) := by
  cases hp : c.procs i with
  | ret a =>
    rw [Pool.turn_of_ret hp]
    exact h
  | step l u k =>
    have hstep := step_of_lawful h hp
    refine ⟨Pool.turn_always h.lawful i, fun j hj => ?_, fun husers => ?_⟩
    · rw [state_turn hp]
      by_cases hij : j = i
      · subst hij
        rw [procs_turn hp] at hj
        rcases hstep.next hj with hl | hl
        · exact hstep.claims hl
        · refine hstep.stays (h.ordered j ?_)
          rw [hp, hl]
          rfl
      · rw [Pool.turn_procs_of_ne hij] at hj
        exact hstep.stays (h.ordered j hj)
    · rw [state_turn hp] at husers ⊢
      by_cases hl : l = .insertUser
      · refine hstep.stays (h.ordered i ?_)
        rw [hp, hl]
        rfl
      · refine hstep.stays (h.claimed fun hnone => husers ?_)
        rw [← List.length_eq_zero_iff, hstep.users hl, hnone]
        rfl

variable (app) in
theorem total_turn (hp : c.procs i = .step l u k) :
    total app (c.turn i) + inserts app (c.procs i) + stock app c.state =
      total app c + stock app (u c.state) + inserts app (k c.state) := by
  have hfun : (fun j => inserts app ((c.turn i).procs j)) =
      Function.update (fun j => inserts app (c.procs j)) i (inserts app (k c.state)) := by
    funext j
    rw [Pool.turn_of_step hp]
    by_cases hj : j = i
    · subst hj
      simp
    · simp [Function.update_of_ne hj]
  have hstate : (c.turn i).state = u c.state := by rw [Pool.turn_of_step hp]
  have hbefore : ∑ j, inserts app (c.procs j) = inserts app (c.procs i) +
      ∑ j ∈ Finset.univ.erase i, inserts app (c.procs j) :=
    (Finset.add_sum_erase Finset.univ _ (Finset.mem_univ i)).symm
  have hafter : ∑ j, inserts app ((c.turn i).procs j) = inserts app (k c.state) +
      ∑ j ∈ Finset.univ.erase i, inserts app (c.procs j) := by
    rw [hfun]
    exact Pool.sum_update (Finset.mem_univ i) _ _
  unfold total
  rw [hstate]
  omega

theorem losesClaim_iff (hp : c.procs i = .step l u k) :
    LosesClaim app c i ↔ ((l = .claimFirstUser ∧ c.state.firstUserClaimed = false) ∨
      inserts app (c.procs i) = 1) ∧ Fails (k c.state) := by
  have hnext : (c.procs i).next? = some .claimFirstUser ↔ l = .claimFirstUser := by
    rw [hp]
    exact Option.some_inj
  unfold LosesClaim Claims
  rw [hnext, procs_turn hp]

theorem total_turn_of_keeps (h : Orderly app c) (hkeeps : ¬LosesClaim app c i) :
    total app (c.turn i) = total app c := by
  cases hp : c.procs i with
  | ret a => rw [Pool.turn_of_ret hp]
  | step l u k =>
    rw [losesClaim_iff hp] at hkeeps
    have hsum := (step_of_lawful h hp).keeps hkeeps
    have htotal := total_turn app hp
    omega

theorem total_turn_of_loses (h : Orderly app c) (hloses : LosesClaim app c i) :
    total app (c.turn i) + 1 = total app c := by
  cases hp : c.procs i with
  | ret a =>
    obtain ⟨hclaims, -⟩ := hloses
    unfold Claims at hclaims
    rw [hp] at hclaims
    rcases hclaims with ⟨h, -⟩ | h
    · cases h
    · cases h
  | step l u k =>
    rw [losesClaim_iff hp] at hloses
    have hsum := (step_of_lawful h hp).loses hloses.1 hloses.2
    have htotal := total_turn app hp
    omega

theorem total_exec_of_zero (h : Orderly app c) (hzero : total app c = 0)
    (schedule : List (Fin n)) : total app (c.exec schedule) = 0 := by
  induction schedule generalizing c with
  | nil => exact hzero
  | cons i schedule ih =>
    refine ih (h.turn i) ?_
    by_cases hloses : LosesClaim app c i
    · have hlost := total_turn_of_loses h hloses
      omega
    · rw [total_turn_of_keeps h hloses, hzero]

theorem orderly_exec (h : Orderly app c) (schedule : List (Fin n)) :
    Orderly app (c.exec schedule) := by
  induction schedule generalizing c with
  | nil => exact h
  | cons i schedule ih => exact ih (h.turn i)

theorem total_exec (h : Orderly app c) (hone : total app c = 1) (schedule : List (Fin n)) :
    (total app (c.exec schedule) = 1 ↔
      Pool.Guarded (fun c i => ¬LosesClaim app c i) c schedule) := by
  induction schedule generalizing c with
  | nil => exact iff_of_true hone trivial
  | cons i schedule ih =>
    show total app ((c.turn i).exec schedule) = 1 ↔ _ ∧ _
    by_cases hloses : LosesClaim app c i
    · have hlost := total_turn_of_loses h hloses
      rw [total_exec_of_zero (h.turn i) (by omega)]
      exact iff_of_false (by decide) fun hguarded => hguarded.1 hloses
    · rw [ih (h.turn i) ((total_turn_of_keeps h hloses).trans hone)]
      exact ⟨fun hguarded => ⟨hloses, hguarded⟩, fun hguarded => hguarded.2⟩

theorem orderly_signUps (hroles : PlainDefaults app) (calls : Fin n → SignUp) {s : State}
    (hempty : s.users = []) : Orderly app (signUps app calls s) := by
  refine ⟨fun i => (begins_signUp hroles (calls i)).1, fun i h => ?_, fun h => absurd hempty h⟩
  exact absurd h (begins_signUp hroles (calls i)).2

theorem total_signUps (hroles : PlainDefaults app) (calls : Fin n → SignUp) {s : State}
    (hempty : s.users = []) (hfree : s.firstUserClaimed = false) :
    total app (signUps app calls s) = 1 := by
  have hnone : ∑ i, inserts app ((signUps app calls s).procs i) = 0 :=
    Finset.sum_eq_zero fun i _ => inserts_of_next? (begins_signUp hroles (calls i)).2
  have hstock : stock app s = 1 := by
    unfold stock
    rw [hempty, hfree]
    rfl
  unfold total
  rw [hnone]
  exact hstock

/-- When all calls have finished and a user was created, exactly one has the role of
the first user, if and only if no call lost the claim. -/
theorem one_admin_iff (app : SignUpApp) (hroles : PlainDefaults app) (n : Nat)
    (calls : Fin n → SignUp) (s : State) (hempty : s.users = [])
    (hfree : s.firstUserClaimed = false) (schedule : List (Fin n)) :
    let c := (signUps app calls s).exec schedule
    (∀ i, (c.procs i).result?.isSome) → c.state.users ≠ [] →
      (c.state.users.countP (isElevated app) = 1 ↔
        Pool.Guarded (fun c i => ¬LosesClaim app c i) (signUps app calls s) schedule) := by
  intro c hfinished husers
  have horderly := orderly_signUps hroles calls hempty
  have hclaimed : c.state.firstUserClaimed = true :=
    (orderly_exec horderly schedule).claimed husers
  have hnone : ∑ i, inserts app (c.procs i) = 0 := by
    refine Finset.sum_eq_zero fun i _ => ?_
    have hi := hfinished i
    cases hp : c.procs i with
    | ret a => rfl
    | step l u k =>
      rw [hp] at hi
      cases hi
  have htotal : total app c = c.state.users.countP (isElevated app) := by
    unfold total stock
    rw [hnone, hclaimed]
    rfl
  rw [← htotal]
  exact total_exec horderly (total_signUps hroles calls hempty hfree) schedule

end Runs

def sampleSignUpApp : SignUpApp where
  toApp := Logins.sampleApp
  passwordMinLength := 12
  passwordCheckBreached := false
  hashpw password _ := some password

theorem sampleSignUpApp_plainDefaults : PlainDefaults sampleSignUpApp := by
  intro provider
  cases provider
  · decide
  · decide

def sampleRegistration (username : String) : Registration where
  username := username
  email := "team@example.com"
  password := "Password1234"
  id := username
  salt := ""
  totpSecret := "enc:secret"

def sampleSignUps : Fin 2 → SignUp
  | 0 => .register (sampleRegistration "alice")
  | 1 => .register (sampleRegistration "bob")

def noUsers : State := ⟨[], .empty, false, [], []⟩

/-- Alice is inserted before Bob, whose email is taken. -/
theorem claim_kept_in_order :
    Pool.Guarded (fun c i => ¬LosesClaim sampleSignUpApp c i)
      (signUps sampleSignUpApp sampleSignUps noUsers)
      [0, 0, 0, 1, 1, 1] :=
  (one_admin_iff sampleSignUpApp sampleSignUpApp_plainDefaults 2 sampleSignUps noUsers rfl rfl
    [0, 0, 0, 1, 1, 1] (by decide) (by decide)).mp (by decide)

/-- Alice takes the claim, and Bob is inserted before her with the same email. -/
theorem claim_lost_to_duplicate :
    ¬∀ (app : SignUpApp), PlainDefaults app → ∀ (n : Nat) (calls : Fin n → SignUp) (s : State),
      s.users = [] → s.firstUserClaimed = false → ∀ schedule : List (Fin n),
      let c := (signUps app calls s).exec schedule
      (∀ i, (c.procs i).result?.isSome) → c.state.users ≠ [] →
        c.state.users.countP (isElevated app) = 1 := by
  intro hclaim
  have hone := hclaim sampleSignUpApp sampleSignUpApp_plainDefaults 2 sampleSignUps noUsers rfl rfl
    [0, 0, 1, 1, 1, 0] (by decide) (by decide)
  revert hone
  decide

end Sentora.Auth.FirstUser
