import Mathlib.Data.List.Nodup
import Sentora.Auth.BlockedAccounts

/-!
# Provisioning

Which accounts `provision_sso_user` returns, and when it returns one at all.  A new account
is inserted under the claimed email, also after the email was what an earlier attempt
clashed on.
-/

namespace Sentora.Auth.Provisioning

open Lib Process Logins

def userSubject : Provider → User → Option String
  | .oidcSubject, user => user.oidcSubject
  | .samlSubject, user => user.samlSubject

structure Indexed (users : List UserDoc) : Prop where
  id : (users.map UserDoc.id).Nodup
  username : (users.map UserDoc.username).Nodup
  email : (users.map UserDoc.email).Nodup
  oidcSubject : (users.filterMap UserDoc.oidcSubject).Nodup
  samlSubject : (users.filterMap UserDoc.samlSubject).Nodup

/-- The account has the subject, or the verified email and no subject of the provider. -/
def Entitled (provider : Provider) (claims : SsoClaims) (value : String) (doc : UserDoc) : Prop :=
  provider.subject doc = some value ∨
    (present claims.email = some doc.email ∧ claims.emailVerified = true ∧
      present (provider.subject doc) = none)

structure Sound (provider : Provider) (claims : SsoClaims) (value : String)
    (users : List UserDoc) (user : User) (users' : List UserDoc) : Prop where
  subject : userSubject provider user = some value
  stored : ∃ doc ∈ users', doc.id = user.id ∧ provider.subject doc = some value
  existing : ∀ doc ∈ users, doc.id = user.id → Entitled provider claims value doc
  others : (users'.filter fun doc => doc.id ≠ user.id) = users.filter fun doc => doc.id ≠ user.id

def Provisions (app : App) (draw : SsoDraw) (claims : SsoClaims) (provider : Provider)
    (value : String) (s : State) : Prop :=
  ∃ user t, Returns (provisionSsoUser app draw claims provider value) s user t ∧
    Sound provider claims value s.users user t.users

/-- The stored names are of the enumerations, and the secret can be decrypted. -/
structure Readable (decrypt : Decrypt) (doc : UserDoc) : Prop where
  status : ∀ v, present doc.status = some v → (AccountStatus.ofValue v).isSome
  role : (UserRole.ofValue (doc.role.getD "viewer")).isSome
  totpSecret : ∀ v, present doc.totpSecret = some v → (decryptField decrypt v).isSome

def EmailFree (claims : SsoClaims) (users : List UserDoc) : Prop :=
  ∀ email, present claims.email = some email → ∀ doc ∈ users, doc.email ≠ email

def NameFree (claims : SsoClaims) (users : List UserDoc) (username : String) : Prop :=
  (∀ doc ∈ users, doc.username ≠ username) ∧
    (present claims.email = none → ∀ doc ∈ users, doc.email ≠ username ++ "@sso.local")

/-- What the loop of `_ensure_unique_username` ends with. -/
def uniqueUsername (users : List UserDoc) (base random : String) : Nat → String → String
  | 0, _ => "sso_" ++ random
  | n + 1, username =>
    if (findDoc username users).isSome then
      uniqueUsername users base random n (base ++ toString (100 - n))
    else username

def triedFrom (draw : SsoDraw) : Nat → String → List String
  | 0, _ => ["sso_" ++ draw.last]
  | attempts + 1, username =>
    username :: triedFrom draw attempts (username ++ "_" ++ draw.retry attempts)

def tried (app : App) (draw : SsoDraw) (claims : SsoClaims) (users : List UserDoc) :
    List String :=
  let base := deriveUsername app draw claims
  triedFrom draw 5 (uniqueUsername users base draw.unique 100 base)

/-- The account that is found can be read; where none is found, no account has the
claimed email. -/
structure Provisionable (app : App) (claims : SsoClaims) (provider : Provider) (value : String)
    (users : List UserDoc) : Prop where
  found : ∀ doc, ssoAccount provider claims value users = some doc → Readable app.decrypt doc
  created : ssoAccount provider claims value users = none → EmailFree claims users

/-- Where no account is found, one of the usernames is free. -/
def SomeNameFree (app : App) (draw : SsoDraw) (claims : SsoClaims) (provider : Provider)
    (value : String) (users : List UserDoc) : Prop :=
  ssoAccount provider claims value users = none →
    ∃ username ∈ tried app draw claims users, NameFree claims users username

/-- No account goes by the last random part drawn. -/
def IsNew (draw : SsoDraw) (users : List UserDoc) : Prop :=
  ∀ doc ∈ users, doc.username ≠ "sso_" ++ draw.last ∧
    doc.email ≠ "sso_" ++ draw.last ++ "@sso.local"

variable {app : App} {draw : SsoDraw} {claims : SsoClaims} {provider : Provider} {value : String}
  {s s' t : State} {user : User} {doc : UserDoc} {users : List UserDoc}

section Creation

variable {newDoc : String → UserDoc} {username name base random : String} {role : UserRole}

theorem returns_uniqueUsernameFrom {n : Nat} :
    Returns (uniqueUsernameFrom base random n username) s name s' ↔
      name = uniqueUsername s.users base random n username ∧ s' = s := by
  induction n generalizing username with
  | zero => exact returns_pure
  | succ n ih =>
    rw [uniqueUsernameFrom, returns_lookUp_bind, uniqueUsername]
    by_cases htaken : (findDoc username s.users).isSome = true
    · rw [if_pos htaken, if_pos htaken, ih]
    · rw [if_neg htaken, if_neg htaken, returns_pure]

def fits (newDoc : String → UserDoc) (users : List UserDoc) (username : String) : Bool :=
  !users.any (clashes (newDoc username))

theorem returns_attempt {later : Login UserDoc} :
    Returns (do
      let inserted ← Logins.atomic .insertUser (insertUser (newDoc name))
      if inserted then pure (newDoc name) else later) s doc s' ↔
      if fits newDoc s.users name then
        doc = newDoc name ∧ s' = { s with users := s.users ++ [newDoc name] }
      else Returns later s doc s' := by
  rw [returns_atomic_bind, insertUser, fits]
  cases s.users.any (clashes (newDoc name)) with
  | true => exact Iff.rfl
  | false => exact returns_pure

/-- The attempts go on until a document clashes with none. -/
theorem returns_insertNewUser {n : Nat} :
    Returns (insertNewUser newDoc draw n username) s doc s' ↔
      ∃ name, (triedFrom draw n username).find? (fits newDoc s.users) = some name ∧
        doc = newDoc name ∧ s' = { s with users := s.users ++ [newDoc name] } := by
  induction n generalizing username with
  | zero =>
    rw [insertNewUser, returns_attempt, triedFrom, List.find?_singleton]
    split
    · simp only [Option.some.injEq, exists_eq_left']
    · simp
  | succ n ih =>
    rw [insertNewUser, returns_attempt, triedFrom, List.find?_cons]
    split
    · rename_i hfits
      simp only [hfits, Option.some.injEq, exists_eq_left']
    · rename_i hfits
      rw [ih, Bool.eq_false_iff.mpr hfits]

def createdRole (app : App) (provider : Provider) (s : State) : UserRole :=
  ssoRole app provider
    (if !s.firstUserClaimed then (if app.isOnprem then .admin else .superAdmin) else .viewer)

theorem returns_createSsoUser :
    Returns (createSsoUser app draw claims provider value) s user t ↔
      ∃ name, (tried app draw claims s.users).find? (fits
          (newUserDoc provider value claims (createdRole app provider s) draw) s.users) =
            some name ∧
        user = newUser (createdRole app provider s)
          (newUserDoc provider value claims (createdRole app provider s) draw name) ∧
        t = { s with
          users := s.users ++
            [newUserDoc provider value claims (createdRole app provider s) draw name]
          firstUserClaimed := true } := by
  unfold createSsoUser claimFirstUser ensureUniqueUsername
  rw [returns_bind_of_still fun _ _ => returns_uniqueUsernameFrom, exists_eq_left]
  simp only [returns_bind, returns_atomic, returns_pure, returns_insertNewUser, Prod.mk.injEq]
  constructor
  · rintro ⟨role, _, ⟨_, _, ⟨rfl, rfl⟩, rfl, rfl⟩, doc, _, ⟨name, hname, rfl, rfl⟩, rfl, rfl⟩
    exact ⟨name, hname, rfl, rfl⟩
  · rintro ⟨name, hname, rfl, rfl⟩
    exact ⟨_, _, ⟨_, _, ⟨rfl, rfl⟩, rfl, rfl⟩, _, _, ⟨name, hname, rfl, rfl⟩, rfl, rfl⟩

theorem newUserDoc_id : (newUserDoc provider value claims role draw name).id = draw.id := by
  cases provider <;> rfl

theorem subject_newUserDoc :
    provider.subject (newUserDoc provider value claims role draw name) = some value := by
  cases provider <;> rfl

theorem clashes_newUserDoc (h : provider.subject doc ≠ some value) :
    clashes (newUserDoc provider value claims role draw name) doc = true ↔
      doc.username = name ∨ doc.email = (present claims.email).getD (name ++ "@sso.local") := by
  cases provider with
  | oidcSubject =>
    have hsubject : (doc.oidcSubject == some value) = false := beq_eq_false_iff_ne.mpr h
    simp [clashes, newUserDoc, Provider.setSubject, hsubject]
  | samlSubject =>
    have hsubject : (doc.samlSubject == some value) = false := beq_eq_false_iff_ne.mpr h
    simp [clashes, newUserDoc, Provider.setSubject, hsubject]

theorem fits_newUserDoc_iff (h : ∀ doc ∈ users, provider.subject doc ≠ some value) :
    fits (newUserDoc provider value claims role draw) users name = true ↔
      NameFree claims users name ∧ EmailFree claims users := by
  have hclash : fits (newUserDoc provider value claims role draw) users name = true ↔
      ∀ doc ∈ users, doc.username ≠ name ∧
        doc.email ≠ (present claims.email).getD (name ++ "@sso.local") := by
    rw [fits, Bool.not_eq_true', List.any_eq_false]
    refine forall₂_congr fun doc hdoc => ?_
    rw [clashes_newUserDoc (h doc hdoc), not_or]
  rw [hclash]
  unfold NameFree EmailFree
  cases present claims.email with
  | none =>
    constructor
    · intro hfree
      exact ⟨⟨fun doc hdoc => (hfree doc hdoc).1, fun _ doc hdoc => (hfree doc hdoc).2⟩, nofun⟩
    · rintro ⟨⟨hname, hemail⟩, -⟩ doc hdoc
      exact ⟨hname doc hdoc, hemail rfl doc hdoc⟩
  | some email =>
    constructor
    · intro hfree
      refine ⟨⟨fun doc hdoc => (hfree doc hdoc).1, nofun⟩, ?_⟩
      rintro _ ⟨⟩ doc hdoc
      exact (hfree doc hdoc).2
    · rintro ⟨⟨hname, -⟩, hemail⟩ doc hdoc
      exact ⟨hname doc hdoc, hemail email rfl doc hdoc⟩

theorem exists_returns_createSsoUser_iff
    (h : ∀ doc ∈ s.users, provider.subject doc ≠ some value) :
    (∃ user t, Returns (createSsoUser app draw claims provider value) s user t) ↔
      ∃ name ∈ tried app draw claims s.users,
        NameFree claims s.users name ∧ EmailFree claims s.users := by
  simp only [returns_createSsoUser]
  constructor
  · rintro ⟨_, _, name, hname, -, -⟩
    exact ⟨name, List.mem_of_find?_eq_some hname,
      (fits_newUserDoc_iff h).mp (List.find?_some hname)⟩
  · rintro ⟨name, hmem, hfree⟩
    have hfits : fits (newUserDoc provider value claims (createdRole app provider s) draw) s.users
        name = true := (fits_newUserDoc_iff h).mpr hfree
    obtain ⟨first, hfirst⟩ := Option.isSome_iff_exists.mp
      (List.find?_isSome.mpr ⟨name, hmem, hfits⟩)
    exact ⟨_, _, first, hfirst, rfl, rfl⟩

theorem sound_of_create (hid : ∀ doc ∈ s.users, doc.id ≠ draw.id)
    (h : Returns (createSsoUser app draw claims provider value) s user t) :
    Sound provider claims value s.users user t.users := by
  obtain ⟨name, -, rfl, rfl⟩ := returns_createSsoUser.mp h
  constructor
  · cases provider <;> rfl
  · exact ⟨_, List.mem_append_right _ List.mem_cons_self, rfl, subject_newUserDoc⟩
  · intro doc hdoc heq
    refine absurd (heq.trans ?_) (hid doc hdoc)
    exact newUserDoc_id
  · rw [List.filter_append, List.filter_cons_of_neg (by simp [newUser]), List.filter_nil,
      List.append_nil]

end Creation

section Accounts

variable {decrypt : Decrypt}

theorem setSubject_id : (provider.setSubject value doc).id = doc.id := by
  cases provider <;> rfl

theorem subject_setSubject : provider.subject (provider.setSubject value doc) = some value := by
  cases provider <;> rfl

theorem ssoAccount_spec (h : ssoAccount provider claims value users = some doc) :
    doc ∈ users ∧ Entitled provider claims value doc := by
  unfold ssoAccount at h
  cases hfound : users.find? fun d => provider.subject d == some value with
  | some found =>
    rw [hfound] at h
    obtain rfl := Option.some.inj h
    have hsubject := List.find?_some hfound
    exact ⟨List.mem_of_find?_eq_some hfound, Or.inl (beq_iff_eq.mp hsubject)⟩
  | none =>
    rw [hfound] at h
    obtain ⟨hmatch, hfree⟩ := Option.filter_eq_some_iff.mp h
    rw [decide_eq_true_eq] at hfree
    unfold emailMatch at hmatch
    cases hemail : present claims.email with
    | none =>
      rw [hemail] at hmatch
      cases hmatch
    | some email =>
      rw [hemail] at hmatch
      dsimp only at hmatch
      by_cases hverified : claims.emailVerified = true
      · rw [if_pos hverified] at hmatch
        have hquery := List.find?_some hmatch
        have hsame : doc.email = email := beq_iff_eq.mp hquery
        exact ⟨List.mem_of_find?_eq_some hmatch,
          Or.inr ⟨hemail.trans (congrArg some hsame.symm), hverified, hfree⟩⟩
      · rw [if_neg hverified] at hmatch
        cases hmatch

theorem subject_ne_of_none (h : ssoAccount provider claims value s.users = none) :
    ∀ doc ∈ s.users, provider.subject doc ≠ some value := by
  unfold ssoAccount at h
  cases hfound : s.users.find? fun d => provider.subject d == some value with
  | some found =>
    rw [hfound] at h
    cases h
  | none => exact fun doc hdoc heq => List.find?_eq_none.mp hfound doc hdoc (beq_iff_eq.mpr heq)

theorem users_of_account (h : ssoAccount provider claims value s.users = some doc)
    (hret : Returns (provisionSsoUser app draw claims provider value) s user t) :
    t.users = s.users ∧ provider.subject doc = some value ∨
      t.users = updateFirst (fun d => d.id == doc.id) (provider.setSubject value)
        s.users := by
  unfold ssoAccount at h
  unfold provisionSsoUser at hret
  rw [returns_lookUp_bind] at hret
  cases hfound : s.users.find? fun d => provider.subject d == some value with
  | some found =>
    rw [hfound] at h hret
    obtain rfl := Option.some.inj h
    obtain ⟨-, rfl⟩ := returns_toUser.mp hret
    have hsubject := List.find?_some hfound
    exact Or.inl ⟨rfl, beq_iff_eq.mp hsubject⟩
  | none =>
    rw [hfound] at h hret
    obtain ⟨hmatch, hfree⟩ := Option.filter_eq_some_iff.mp h
    dsimp only at hret
    rw [returns_bind_of_still fun _ _ => returns_findByEmail, exists_eq_left, hmatch] at hret
    dsimp only at hret
    rw [if_pos (of_decide_eq_true hfree), returns_write_bind] at hret
    obtain ⟨-, rfl⟩ := returns_toUser.mp hret
    exact Or.inr rfl

theorem filter_updateFirst {f : UserDoc → UserDoc} (hf : ∀ d, (f d).id = d.id) :
    ((updateFirst (fun d => d.id == doc.id) f users).filter fun d => d.id ≠ doc.id) =
      users.filter fun d => d.id ≠ doc.id := by
  induction users with
  | nil => rfl
  | cons d users ih =>
    rw [updateFirst]
    by_cases hd : d.id = doc.id
    · rw [if_pos (beq_iff_eq.mpr hd), List.filter_cons_of_neg (by simp [hf, hd]),
        List.filter_cons_of_neg (by simp [hd])]
    · rw [if_neg (by simpa using hd), List.filter_cons, List.filter_cons, ih]

theorem mem_updateFirst_id {f : UserDoc → UserDoc} (hnodup : (users.map UserDoc.id).Nodup)
    (hdoc : doc ∈ users) : f doc ∈ updateFirst (fun d => d.id == doc.id) f users := by
  induction users with
  | nil => exact absurd hdoc List.not_mem_nil
  | cons d users ih =>
    rw [List.map_cons, List.nodup_cons] at hnodup
    rw [updateFirst]
    rcases List.mem_cons.mp hdoc with rfl | hlater
    · rw [if_pos (beq_self_eq_true _)]
      exact List.mem_cons_self
    · have hne : d.id ≠ doc.id := fun heq =>
        hnodup.1 (heq ▸ List.mem_map_of_mem hlater)
      rw [if_neg (by simpa using hne)]
      exact List.mem_cons_of_mem _ (ih hnodup.2 hlater)

theorem id_of_docToUser (h : docToUser decrypt doc = .ok user) :
    user.id = doc.id := by
  obtain ⟨_, _, _, -, -, -, rfl⟩ := docToUser_ok_iff.mp h
  rfl

theorem userSubject_of_docToUser (h : docToUser decrypt doc = .ok user) :
    userSubject provider user = provider.subject doc := by
  obtain ⟨_, _, _, -, -, -, rfl⟩ := docToUser_ok_iff.mp h
  cases provider <;> rfl

theorem sound_of_account (hindexed : Indexed s.users)
    (h : ssoAccount provider claims value s.users = some doc)
    (hret : Returns (provisionSsoUser app draw claims provider value) s user t) :
    Sound provider claims value s.users user t.users := by
  obtain ⟨hmem, hentitled⟩ := ssoAccount_spec h
  have hread := (returns_provisionSsoUser_of_account h).mp ⟨t, hret⟩
  have hid : user.id = doc.id := (id_of_docToUser hread).trans setSubject_id
  have hsubject : userSubject provider user = some value :=
    (userSubject_of_docToUser hread).trans subject_setSubject
  have hexisting : ∀ d ∈ s.users, d.id = user.id → Entitled provider claims value d := by
    intro d hd heq
    obtain rfl := List.inj_on_of_nodup_map hindexed.id hd hmem (heq.trans hid)
    exact hentitled
  rcases users_of_account h hret with ⟨husers, hsame⟩ | husers
  · rw [husers]
    exact ⟨hsubject, ⟨doc, hmem, hid.symm, hsame⟩, hexisting, rfl⟩
  · have hstored := mem_updateFirst_id (f := provider.setSubject value) hindexed.id hmem
    rw [husers]
    refine ⟨hsubject, ⟨_, hstored, setSubject_id.trans hid.symm, subject_setSubject⟩,
      hexisting, ?_⟩
    rw [hid]
    exact filter_updateFirst fun _ => setSubject_id

theorem accountStatus_ok_iff : (∃ status, doc.accountStatus = .ok status) ↔
    ∀ v, present doc.status = some v → (AccountStatus.ofValue v).isSome := by
  unfold UserDoc.accountStatus
  cases present doc.status with
  | none =>
    refine ⟨fun _ => nofun, fun _ => ?_⟩
    dsimp only
    split <;> exact ⟨_, rfl⟩
  | some v => cases h : AccountStatus.ofValue v <;> simp [h]

theorem userRole_ok_iff : (∃ role, doc.userRole = .ok role) ↔
    (UserRole.ofValue (doc.role.getD "viewer")).isSome := by
  unfold UserDoc.userRole
  cases UserRole.ofValue (doc.role.getD "viewer") <;> simp

theorem decryptedSecret_ok_iff :
    (∃ secret, doc.decryptedSecret decrypt = .ok secret) ↔
      ∀ v, present doc.totpSecret = some v → (decryptField decrypt v).isSome := by
  unfold UserDoc.decryptedSecret
  cases present doc.totpSecret with
  | none => simp
  | some v => cases h : decryptField decrypt v <;> simp [h]

theorem readable_iff :
    (∃ user, docToUser decrypt (provider.setSubject value doc) = .ok user) ↔
      Readable decrypt doc := by
  have hstatus : (provider.setSubject value doc).accountStatus = doc.accountStatus := by
    cases provider <;> rfl
  have hsecret : (provider.setSubject value doc).decryptedSecret decrypt =
      doc.decryptedSecret decrypt := by
    cases provider <;> rfl
  have hrole : (provider.setSubject value doc).userRole = doc.userRole := by
    cases provider <;> rfl
  simp only [docToUser_ok_iff, hstatus, hsecret, hrole]
  constructor
  · rintro ⟨_, status, secret, role, hstatus, hsecret, hrole, -⟩
    exact ⟨accountStatus_ok_iff.mp ⟨status, hstatus⟩, userRole_ok_iff.mp ⟨role, hrole⟩,
      decryptedSecret_ok_iff.mp ⟨secret, hsecret⟩⟩
  · intro h
    obtain ⟨status, hstatus⟩ := accountStatus_ok_iff.mpr h.status
    obtain ⟨secret, hsecret⟩ := decryptedSecret_ok_iff.mpr h.totpSecret
    obtain ⟨role, hrole⟩ := userRole_ok_iff.mpr h.role
    exact ⟨_, status, secret, role, hstatus, hsecret, hrole, rfl⟩

end Accounts

theorem sound_of_returns (hindexed : Indexed s.users) (hid : ∀ doc ∈ s.users, doc.id ≠ draw.id)
    (h : Returns (provisionSsoUser app draw claims provider value) s user t) :
    Sound provider claims value s.users user t.users := by
  cases haccount : ssoAccount provider claims value s.users with
  | some doc => exact sound_of_account hindexed haccount h
  | none => exact sound_of_create hid ((returns_provisionSsoUser_of_none haccount).mp h)

theorem provisions_iff (hindexed : Indexed s.users) (hid : ∀ doc ∈ s.users, doc.id ≠ draw.id) :
    Provisions app draw claims provider value s ↔
      Provisionable app claims provider value s.users ∧
        SomeNameFree app draw claims provider value s.users := by
  have htotal : Provisions app draw claims provider value s ↔
      ∃ user t, Returns (provisionSsoUser app draw claims provider value) s user t := by
    constructor
    · rintro ⟨user, t, h, -⟩
      exact ⟨user, t, h⟩
    · rintro ⟨user, t, h⟩
      exact ⟨user, t, h, sound_of_returns hindexed hid h⟩
  rw [htotal]
  cases haccount : ssoAccount provider claims value s.users with
  | some doc =>
    rw [exists_congr fun _ => returns_provisionSsoUser_of_account haccount, readable_iff]
    constructor
    · intro hread
      refine ⟨⟨fun d hd => ?_, fun hnone => ?_⟩, fun hnone => ?_⟩
      · rw [haccount] at hd
        exact Option.some.inj hd ▸ hread
      · rw [haccount] at hnone
        cases hnone
      · rw [haccount] at hnone
        cases hnone
    · rintro ⟨hfound, -⟩
      exact hfound.found doc haccount
  | none =>
    simp only [returns_provisionSsoUser_of_none haccount]
    rw [exists_returns_createSsoUser_iff (subject_ne_of_none haccount)]
    constructor
    · rintro ⟨name, hname, hfree, hemail⟩
      refine ⟨⟨fun d hd => ?_, fun _ => hemail⟩, fun _ => ⟨name, hname, hfree⟩⟩
      rw [haccount] at hd
      cases hd
    · rintro ⟨hprovisionable, hnames⟩
      obtain ⟨name, hname, hfree⟩ := hnames haccount
      exact ⟨name, hname, hfree, hprovisionable.created haccount⟩

theorem last_mem_triedFrom : ∀ (n : Nat) (username : String),
    "sso_" ++ draw.last ∈ triedFrom draw n username
  | 0, _ => List.mem_cons_self
  | n + 1, _ => List.mem_cons_of_mem _ (last_mem_triedFrom n _)

theorem someNameFree_of_isNew (h : IsNew draw users) :
    SomeNameFree app draw claims provider value users := by
  intro _
  refine ⟨_, last_mem_triedFrom 5 _, fun doc hdoc => (h doc hdoc).1, ?_⟩
  exact fun _ doc hdoc => (h doc hdoc).2

/-- An account is returned if and only if the one that is found can be read, or none is
found and none has the claimed email, but for bad luck with the random usernames. -/
theorem provisioning_is_total_and_safe_iff (app : App) (draw : SsoDraw) (claims : SsoClaims)
    (provider : Provider) (value : String) (s : State) (hindexed : Indexed s.users)
    (hid : ∀ doc ∈ s.users, doc.id ≠ draw.id) :
    (Provisions app draw claims provider value s ↔
      Provisionable app claims provider value s.users ∧
        SomeNameFree app draw claims provider value s.users) ∧
    (IsNew draw s.users → (Provisions app draw claims provider value s ↔
      Provisionable app claims provider value s.users)) := by
  refine ⟨provisions_iff hindexed hid, fun hnew => ?_⟩
  rw [provisions_iff hindexed hid]
  exact and_iff_left (someNameFree_of_isNew hnew)

def localUser : UserDoc where
  id := "1"
  username := "alice"
  email := "alice@example.com"
  role := some "viewer"
  hashedPassword := some "Secret123"

def sampleSsoDraw : SsoDraw where
  id := "2"
  derived := "d"
  unique := "u"
  retry _ := "r"
  last := "x"

theorem indexed_localUser : Indexed (stateOf localUser).users := by
  constructor <;> decide

def ssoClaims (email : String) : SsoClaims := { sub := some "idp|7", email := some email }

theorem provisionable_other_email : Provisionable sampleApp (ssoClaims "alice@example.org")
    .oidcSubject "idp|7" (stateOf localUser).users where
  found _ h := absurd h nofun
  created _ := by
    rintro _ ⟨⟩ doc hdoc
    rw [List.mem_singleton.mp hdoc]
    decide

/-- The username is taken, and the next one is free. -/
theorem other_email_is_provisioned :
    Provisions sampleApp sampleSsoDraw (ssoClaims "alice@example.org") .oidcSubject "idp|7"
      (stateOf localUser) :=
  ((provisioning_is_total_and_safe_iff sampleApp sampleSsoDraw (ssoClaims "alice@example.org")
    .oidcSubject "idp|7" (stateOf localUser) indexed_localUser (by decide)).2
      (by unfold IsNew; decide)).mpr provisionable_other_email

/-- The email of a local account, not verified, is claimed under a new subject. -/
theorem claimed_email_of_local_user_is_refused :
    ¬∀ (app : App) (draw : SsoDraw) (claims : SsoClaims) (provider : Provider) (value : String)
      (s : State), present claims.sub = some value → Indexed s.users →
      (∀ doc ∈ s.users, doc.id ≠ draw.id) → IsNew draw s.users →
      (∀ doc ∈ s.users, Readable app.decrypt doc) →
      Provisions app draw claims provider value s := by
  intro hclaim
  have hid : ∀ doc ∈ (stateOf localUser).users, doc.id ≠ sampleSsoDraw.id := by decide
  have hread : Readable sampleApp.decrypt localUser := ⟨nofun, rfl, nofun⟩
  have hprovisions := hclaim sampleApp sampleSsoDraw (ssoClaims "alice@example.com") .oidcSubject
    "idp|7" (stateOf localUser) rfl indexed_localUser hid (by unfold IsNew; decide)
    fun doc hdoc => List.mem_singleton.mp hdoc ▸ hread
  have hfree := ((provisions_iff indexed_localUser hid).mp hprovisions).1.created rfl
  exact hfree _ rfl localUser List.mem_cons_self rfl

end Sentora.Auth.Provisioning
