import Sentora.Auth.Access

/-!
# User accounts

The users collection, the entities of `domains/auth/entities.py`, `_doc_to_user`
and the updates of `domains/auth/service.py` that the user management makes.
-/

namespace Sentora.Auth

inductive UserRole where
  | superAdmin | admin | analyst | viewer
deriving DecidableEq

def UserRole.value : UserRole → String
  | superAdmin => "super_admin"
  | admin => "admin"
  | analyst => "analyst"
  | viewer => "viewer"

inductive AccountStatus where
  | invited | active | suspended | deactivated | deleted
deriving DecidableEq

def AccountStatus.value : AccountStatus → String
  | invited => "invited"
  | active => "active"
  | suspended => "suspended"
  | deactivated => "deactivated"
  | deleted => "deleted"

def UserRole.ofValue (value : String) : Option UserRole :=
  [superAdmin, admin, analyst, viewer].find? fun r => r.value == value

def AccountStatus.ofValue (value : String) : Option AccountStatus :=
  [invited, active, suspended, deactivated, deleted].find? fun s => s.value == value

/-- A stored user.  Fields that a document may lack are options. -/
structure UserDoc where
  id : String
  username : String
  email : String
  role : Option String := none
  disabled : Option Bool := none
  status : Option String := none
  hashedPassword : Option String := none
  totpSecret : Option String := none
  totpEnabled : Option Bool := none
  oidcSubject : Option String := none
  samlSubject : Option String := none
  tenantId : Option String := none
  failedLoginAttempts : Option Nat := none
  lockedUntil : Option Nat := none
  deletedAt : Option Nat := none
deriving DecidableEq

structure User where
  id : String
  username : String
  email : String
  role : UserRole
  disabled : Bool
  status : AccountStatus
  hashedPassword : String
  totpSecret : Option String
  totpEnabled : Bool
  oidcSubject : Option String
  samlSubject : Option String
  tenantId : Option String
deriving DecidableEq

/-- What makes a document unreadable: the `ValueError`s of the two enumerations
and of `decrypt_field`. -/
inductive DocError where
  | status (value : String)
  | role (value : String)
  | totpSecret
deriving DecidableEq

/-- The Fernet decryption, which fails under a changed key. -/
abbrev Decrypt := String → Option String

/-- `decrypt_field` of a present value. -/
def decryptField (decrypt : Decrypt) (stored : String) : Option String :=
  match stored.toList with
  | 'e' :: 'n' :: 'c' :: ':' :: rest => decrypt (String.ofList rest)
  | _ => some stored

def UserDoc.accountStatus (d : UserDoc) : Except DocError AccountStatus :=
  match present d.status with
  | some value =>
    match AccountStatus.ofValue value with
    | some status => .ok status
    | none => .error (.status value)
  | none => if d.disabled = some true then .ok .deactivated else .ok .active

def UserDoc.userRole (d : UserDoc) : Except DocError UserRole :=
  match UserRole.ofValue (d.role.getD "viewer") with
  | some role => .ok role
  | none => .error (.role (d.role.getD "viewer"))

def UserDoc.decryptedSecret (decrypt : Decrypt) (d : UserDoc) : Except DocError (Option String) :=
  match present d.totpSecret with
  | none => .ok none
  | some stored =>
    match decryptField decrypt stored with
    | some secret => .ok (some secret)
    | none => .error .totpSecret

def docToUser (decrypt : Decrypt) (d : UserDoc) : Except DocError User := do
  let status ← d.accountStatus
  let totpSecret ← d.decryptedSecret decrypt
  let role ← d.userRole
  .ok {
    id := d.id
    username := d.username
    email := d.email
    role := role
    disabled := d.disabled.getD false
    status := status
    hashedPassword := d.hashedPassword.getD ""
    totpSecret := totpSecret
    totpEnabled := d.totpEnabled.getD false
    oidcSubject := d.oidcSubject
    samlSubject := d.samlSubject
    tenantId := d.tenantId }

def hasUsername (username : String) (d : UserDoc) : Bool := d.username == username

def findDoc (username : String) (users : List UserDoc) : Option UserDoc :=
  users.find? (hasUsername username)

def updateDoc (username : String) (update : UserDoc → UserDoc) : List UserDoc → List UserDoc :=
  updateFirst (hasUsername username) update

/-- The updates of the user management: `update_user_role`, the two functions
that set the flag and the status, and `soft_delete_user`. -/
inductive Change where
  | role (role : UserRole)
  | status (disabled : Bool) (status : AccountStatus)
  | deleted (deletedAt : Nat)
deriving DecidableEq

def Change.apply : Change → UserDoc → UserDoc
  | .role r, d => { d with role := some r.value }
  | .status disabled s, d => { d with disabled := some disabled, status := some s.value }
  | .deleted now, d => { d with
      status := some AccountStatus.deleted.value, disabled := some true, deletedAt := some now }

@[simp] theorem UserRole.ofValue_value (r : UserRole) : UserRole.ofValue r.value = some r := by
  cases r <;> rfl

@[simp] theorem AccountStatus.ofValue_value (s : AccountStatus) :
    AccountStatus.ofValue s.value = some s := by
  cases s <;> rfl

theorem AccountStatus.present_value (s : AccountStatus) :
    present (some s.value) = some s.value := by
  cases s <;> rfl

section Changes

variable {d : UserDoc}

@[simp] theorem Change.apply_username (change : Change) :
    (change.apply d).username = d.username := by
  cases change <;> rfl

@[simp] theorem accountStatus_status (disabled : Bool) (status : AccountStatus) :
    ((Change.status disabled status).apply d).accountStatus = .ok status := by
  simp only [UserDoc.accountStatus, Change.apply, AccountStatus.present_value,
    AccountStatus.ofValue_value]

@[simp] theorem accountStatus_deleted (deletedAt : Nat) :
    ((Change.deleted deletedAt).apply d).accountStatus = .ok .deleted :=
  rfl

end Changes

theorem findDoc_updateDoc_self {username : String} {update : UserDoc → UserDoc}
    (hupdate : ∀ d, (update d).username = d.username) (users : List UserDoc) :
    findDoc username (updateDoc username update users) = (findDoc username users).map update := by
  unfold findDoc updateDoc
  induction users with
  | nil => rfl
  | cons d users ih =>
    rw [updateFirst]
    by_cases hd : hasUsername username d = true
    · have hnew : hasUsername username (update d) = true := by
        unfold hasUsername
        rw [hupdate]
        exact hd
      rw [if_pos hd, List.find?_cons_of_pos hnew, List.find?_cons_of_pos hd]
      rfl
    · rw [if_neg hd, List.find?_cons_of_neg hd, List.find?_cons_of_neg hd]
      exact ih

theorem findDoc_updateDoc_other {username other : String} {update : UserDoc → UserDoc}
    (hupdate : ∀ d, (update d).username = d.username) (hne : other ≠ username)
    (users : List UserDoc) :
    findDoc other (updateDoc username update users) = findDoc other users := by
  unfold findDoc updateDoc
  induction users with
  | nil => rfl
  | cons d users ih =>
    rw [updateFirst]
    by_cases hd : hasUsername username d = true
    · have hold : ¬hasUsername other d = true := by
        intro h
        exact hne ((beq_iff_eq.mp h).symm.trans (beq_iff_eq.mp hd))
      have hnew : ¬hasUsername other (update d) = true := by
        unfold hasUsername
        rw [hupdate]
        exact hold
      rw [if_pos hd, List.find?_cons_of_neg hnew, List.find?_cons_of_neg hold]
    · rw [if_neg hd, List.find?_cons, List.find?_cons, ih]

theorem findDoc_username {username : String} {users : List UserDoc} {d : UserDoc}
    (h : findDoc username users = some d) : d.username = username := by
  have hfound := List.find?_some h
  exact beq_iff_eq.mp hfound

section Readable

variable {decrypt : Decrypt} {d : UserDoc} {u : User}

theorem docToUser_ok_iff : docToUser decrypt d = .ok u ↔
    ∃ status secret role, d.accountStatus = .ok status ∧ d.decryptedSecret decrypt = .ok secret ∧
      d.userRole = .ok role ∧ u = ⟨d.id, d.username, d.email, role, d.disabled.getD false, status,
        d.hashedPassword.getD "", secret, d.totpEnabled.getD false, d.oidcSubject, d.samlSubject,
        d.tenantId⟩ := by
  unfold docToUser
  cases hstatus : d.accountStatus with
  | error e => simp [bind, Except.bind]
  | ok status =>
    cases hsecret : d.decryptedSecret decrypt with
    | error e => simp [bind, Except.bind]
    | ok secret =>
      cases hrole : d.userRole with
      | error e => simp [bind, Except.bind]
      | ok role => simp [bind, Except.bind, eq_comm]

theorem accountStatus_of_docToUser (h : docToUser decrypt d = .ok u) :
    d.accountStatus = .ok u.status := by
  obtain ⟨status, secret, role, hstatus, -, -, rfl⟩ := docToUser_ok_iff.mp h
  exact hstatus

theorem userRole_of_docToUser (h : docToUser decrypt d = .ok u) : d.userRole = .ok u.role := by
  obtain ⟨status, secret, role, -, -, hrole, rfl⟩ := docToUser_ok_iff.mp h
  exact hrole

theorem userRole_ok_iff {role : UserRole} :
    d.userRole = .ok role ↔ UserRole.ofValue (d.role.getD "viewer") = some role := by
  unfold UserDoc.userRole
  cases UserRole.ofValue (d.role.getD "viewer") with
  | none => simp
  | some r => simp

end Readable

end Sentora.Auth
