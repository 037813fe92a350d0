import Sentora.Auth.UserCache

/-!
# Administrators

Which accounts the requests of an actor whose token has the role `admin` can
change, in every interleaving of the user management.

Every endpoint but one looks at the stored role of its user before it writes.
`admin_revoke_sessions` does not, and a promotion may come between the look and
the writes.
-/

namespace Sentora.Auth

open Lib Process

/-- The user each session and each token family was issued to. -/
structure Ownership where
  session : String → String
  family : String → String

/-- Sessions and tokens name the users they were issued to. -/
structure Owned (own : Ownership) (s : AuthStore) : Prop where
  sessions : ∀ d ∈ s.sessions, own.session d.sessionId = d.username ∧
    (d.refreshTokenFamily ≠ "" → own.family d.refreshTokenFamily = d.username)
  tokens : ∀ d ∈ s.refreshTokens, own.family d.familyId = d.username

def sessionsOf (x : String) (s : AuthStore) : List SessionDoc :=
  s.sessions.filter fun d => d.username == x

def tokensOf (x : String) (s : AuthStore) : List TokenDoc :=
  s.refreshTokens.filter fun d => d.username == x

/-- Only the sessions and tokens of the user have changed. -/
def OnlyOf (x : String) (s t : AuthStore) : Prop :=
  ∀ y, y ≠ x → sessionsOf y t = sessionsOf y s ∧ tokensOf y t = tokensOf y s

section Owned

variable {own : Ownership} {s : AuthStore} {x : String}

theorem onlyOf_refl (x : String) (s : AuthStore) : OnlyOf x s s := fun _ _ => ⟨rfl, rfl⟩

theorem Owned.deleteTokens (h : Owned own s) (query : TokenDoc → Bool) :
    Owned own (deleteTokens query s).1 :=
  ⟨h.sessions, fun d hd => h.tokens d (List.mem_filter.mp hd).1⟩

theorem Owned.deactivateSessions (h : Owned own s) (sessionIds : List String) (now : Nat)
    (reason : String) : Owned own (deactivateSessions sessionIds now reason s).1 := by
  refine ⟨fun d hd => ?_, h.tokens⟩
  obtain ⟨e, he, heq⟩ := List.mem_map.mp hd
  have hsame : d.sessionId = e.sessionId ∧ d.refreshTokenFamily = e.refreshTokenFamily ∧
      d.username = e.username := by
    rw [← heq]
    split
    · exact ⟨rfl, rfl, rfl⟩
    · exact ⟨rfl, rfl, rfl⟩
  rw [hsame.1, hsame.2.1, hsame.2.2]
  exact h.sessions e he

theorem onlyOf_deleteTokens {query : TokenDoc → Bool}
    (h : ∀ d ∈ s.refreshTokens, query d = true → d.username = x) :
    OnlyOf x s (deleteTokens query s).1 := by
  intro y hy
  refine ⟨rfl, ?_⟩
  show (s.refreshTokens.filter _).filter _ = s.refreshTokens.filter _
  rw [List.filter_filter]
  apply List.filter_congr
  intro d hd
  by_cases hquery : query d = true
  · have hne : (d.username == y) = false := by
      rw [h d hd hquery]
      exact beq_false_of_ne hy.symm
    rw [hne, Bool.false_and]
  · rw [Bool.eq_false_iff.mpr hquery, Bool.not_false, Bool.and_true]

theorem onlyOf_deactivateSessions (h : Owned own s) {sessionIds : List String}
    (hids : ∀ id ∈ sessionIds, own.session id = x) (now : Nat) (reason : String) :
    OnlyOf x s (deactivateSessions sessionIds now reason s).1 := by
  intro y hy
  refine ⟨?_, rfl⟩
  show (s.sessions.map _).filter _ = s.sessions.filter _
  have hkept : ∀ d ∈ s.sessions, d.username = y →
      (if d.sessionId ∈ sessionIds then revoked now reason d else d) = d := by
    intro d hd hname
    refine if_neg fun hmem => hy ?_
    rw [← hname, ← (h.sessions d hd).1, hids _ hmem]
  rw [List.filter_map]
  have hname : ((fun d : SessionDoc => d.username == y) ∘ fun d : SessionDoc =>
      if d.sessionId ∈ sessionIds then revoked now reason d else d) =
        fun d : SessionDoc => d.username == y := by
    funext d
    show ((if d.sessionId ∈ sessionIds then revoked now reason d else d).username == y) = _
    split <;> rfl
  rw [hname]
  conv_rhs => rw [← List.map_id (s.sessions.filter _)]
  apply List.map_congr_left
  intro d hd
  obtain ⟨hmem, hy⟩ := List.mem_filter.mp hd
  exact hkept d hmem (beq_iff_eq.mp hy)

end Owned

def ownProtocol (own : Ownership) (x : String) : Protocol AuthStore AuthOp where
  inv := Owned own
  rely _ _ := True
  asserts _ _ := True
  does _ s t := OnlyOf x s t
  refl _ := trivial
  trans _ _ := trivial
  does_rely _ := trivial

def ownCacheProtocol (own : Ownership) (x : String) : Protocol CacheState CacheOp where
  inv c := Owned own c.store
  rely _ _ := True
  asserts _ _ := True
  does _ c c' := OnlyOf x c.store c'.store
  refl _ := trivial
  trans _ _ := trivial
  does_rely _ := trivial

def adminProtocol (own : String → Ownership) : Protocol AppState AdminOp where
  inv s := ∀ db, Owned (own db) (s.databases db).auth
  rely _ _ := True
  asserts _ _ := True
  does l s t := ∀ r op, l = .account r op → ∀ db y, ¬(db = r.database ∧ y = r.username) →
    sessionsOf y (t.databases db).auth = sessionsOf y (s.databases db).auth ∧
      tokensOf y (t.databases db).auth = tokensOf y (s.databases db).auth
  refl _ := trivial
  trans _ _ := trivial
  does_rely _ := trivial

section Protocols

variable {own : String → Ownership} {db x : String} {app : App} {r : Request}
variable {α : Type}

def FoundOf (own : Ownership) (x : String) (found : List SessionDoc) : Prop :=
  ∀ d ∈ found, own.session d.sessionId = x ∧
    (d.refreshTokenFamily ≠ "" → own.family d.refreshTokenFamily = x)

theorem obeys_inStore {own : Ownership} {Q : α → Prop} {clock : Option Nat}
    {p : Process AuthStore AuthOp α} (hp : ∀ s, Obeys (ownProtocol own x) (fun _ a => Q a) s p)
    (c : CacheState) : Obeys (ownCacheProtocol own x) (fun _ a => Q a) c (inStore clock p) := by
  unfold inStore
  refine Obeys.zoom (fun _ _ => rfl) ?_ ?_ ?_ ?_ ?_ (hp c.store)
  · exact fun _ => id
  · exact fun _ _ _ => id
  · exact fun _ _ _ => trivial
  · exact fun _ _ _ => trivial
  · exact fun _ _ _ => id

theorem obeys_deleteTokensOf {own : Ownership} {query : TokenDoc → Bool}
    (h : ∀ s : AuthStore, Owned own s → ∀ d ∈ s.refreshTokens, query d = true → d.username = x)
    (s : AuthStore) :
    Obeys (ownProtocol own x) (fun _ _ => True) s
      (Process.atomic AuthOp.deleteTokens (deleteTokens query)) :=
  obeys_atomic fun t ht _ => ⟨trivial, ht.deleteTokens query, onlyOf_deleteTokens (h t ht), trivial⟩

theorem obeys_revokeListedOf {own : Ownership} {found : List SessionDoc}
    (hfound : FoundOf own x found) (reason : String) (now : Nat) (s : AuthStore) :
    Obeys (ownProtocol own x) (fun _ _ => True) s (revokeListed found reason now) := by
  refine Obeys.bind (R := fun _ _ => True) (obeys_atomic fun t ht _ => ?_) fun t modified _ => ?_
  · refine ⟨trivial, ht.deactivateSessions _ now reason, onlyOf_deactivateSessions ht ?_ now reason,
      trivial⟩
    intro id hid
    obtain ⟨d, hd, rfl⟩ := List.mem_map.mp hid
    exact (hfound d hd).1
  · split
    · refine (obeys_deleteTokensOf (fun s hs d hd hquery => ?_) t).bind fun _ _ _ => trivial
      obtain ⟨hmem, hne⟩ := List.mem_filter.mp (List.contains_iff_mem.mp hquery)
      obtain ⟨e, he, heq⟩ := List.mem_map.mp hmem
      rw [← hs.tokens d hd, ← heq]
      refine (hfound e he).2 ?_
      rw [heq]
      exact of_decide_eq_true hne
    · trivial

theorem obeys_revokeAllOf (own : Ownership) (x reason : String) (now : Nat) (c : CacheState) :
    Obeys (ownCacheProtocol own x) (fun _ _ => True) c
      (revokeAllUserSessionsMarked x reason none now) := by
  have hread : ∀ s, Obeys (ownProtocol own x) (fun _ found => FoundOf own x found) s
      (Process.read .listSessions (sessionsToRevoke x none)) := by
    refine fun s => obeys_atomic fun t ht _ => ⟨trivial, ht, onlyOf_refl x t, fun d hd => ?_⟩
    obtain ⟨hmem, hquery⟩ := List.mem_filter.mp hd
    rw [Bool.and_eq_true, Bool.and_eq_true, beq_iff_eq] at hquery
    rw [← hquery.1.1]
    exact ht.sessions d hmem
  refine (obeys_inStore hread c).bind fun c found hfound => ?_
  split
  · trivial
  · refine (obeys_inStore (Q := fun _ => True) (obeys_revokeListedOf hfound reason now) c).bind ?_
    intro c' modified _
    exact (obeys_atomic fun t ht _ => ⟨trivial, ht, onlyOf_refl x _, trivial⟩).bind
      (R := fun _ _ => True) fun _ _ _ => trivial

def OwnersKept (own : String → Ownership) {α : Type} (p : Admin α) : Prop :=
  ∀ s, Obeys (adminProtocol own) (fun _ _ => True) s p

theorem OwnersKept.bind {α β : Type} {p : Admin α} {f : α → Admin β} (hp : OwnersKept own p)
    (hf : ∀ a, OwnersKept own (f a)) : OwnersKept own (p >>= f) :=
  fun s => (hp s).bind fun t a _ => hf a t

theorem ownersKept_ret (a : α) : OwnersKept own (.ret a : Admin α) := fun _ => trivial

theorem ownersKept_atomic {l : AdminOp} {f : AppState → AppState × α}
    (h : ∀ s db, ((f s).1.databases db).auth = (s.databases db).auth) :
    OwnersKept own (Process.atomic l f) := by
  refine fun s => obeys_atomic fun t ht _ =>
    ⟨trivial, fun db => ?_, fun r op _ db y _ => ?_, trivial⟩
  · rw [h]
    exact ht db
  · rw [h]
    exact ⟨rfl, rfl⟩

theorem auth_updateUser (s : AppState) (db x : String) (change : Change) (db' : String) :
    ((s.updateUser db x change).databases db').auth = (s.databases db').auth := by
  unfold AppState.updateUser
  by_cases hdb : db' = db
  · rw [hdb, AppState.setDatabase_self]
  · rw [AppState.setDatabase_other _ hdb]

theorem auth_setSessions_other {s : AppState} {db' : String} (c : CacheState) (h : db' ≠ db) :
    ((s.setSessions db c).databases db').auth = (s.databases db').auth := by
  show ((s.setDatabase db _).databases db').auth = _
  rw [AppState.setDatabase_other _ h]

theorem auth_setSessions_self (s : AppState) (db : String) (c : CacheState) :
    ((s.setSessions db c).databases db).auth = c.store :=
  congrArg CacheState.store (AppState.sessions_setSessions c)

theorem ownersKept_inSessions {p : Process CacheState CacheOp α}
    (hp : ∀ c, Obeys (ownCacheProtocol (own r.database) r.username) (fun _ _ => True) c p) :
    OwnersKept own (inSessions r p) := by
  intro s
  unfold inSessions
  refine Obeys.zoom (Q := fun _ _ => True) ?_ ?_ ?_ ?_ ?_ ?_ (hp _)
  · exact fun c t => AppState.sessions_setSessions c
  · exact fun t ht => ht r.database
  · intro c t ht hc db
    by_cases hdb : db = r.database
    · rw [hdb, auth_setSessions_self]
      exact hc
    · rw [auth_setSessions_other c hdb]
      exact ht db
  · exact fun _ _ _ => trivial
  · exact fun _ _ _ => trivial
  · intro l c t honly r' op heq db y hother
    cases heq
    by_cases hdb : db = r.database
    · subst hdb
      rw [auth_setSessions_self]
      exact honly y fun hy => hother ⟨rfl, hy⟩
    · rw [auth_setSessions_other c hdb]
      exact ⟨rfl, rfl⟩

theorem ownersKept_revokeTokensOf (r : Request) : OwnersKept own (revokeTokensOf r) := by
  refine ownersKept_inSessions fun c => ?_
  refine obeys_inStore (Q := fun _ => True) (obeys_deleteTokensOf fun s _ d _ hquery => ?_) c
  exact beq_iff_eq.mp hquery

theorem ownersKept_revokeSessionsOf (r : Request) (reason : String) (now : Nat) :
    OwnersKept own (revokeSessionsOf r reason now) :=
  ownersKept_inSessions (obeys_revokeAllOf _ _ reason now)

theorem ownersKept_updateUserInDb (r : Request) (change : Change) :
    OwnersKept own (updateUserInDb r change) :=
  ownersKept_atomic fun s db => auth_updateUser s r.database r.username change db

theorem ownersKept_endAccess (r : Request) (reason : String) (now : Nat) :
    OwnersKept own (endAccess r reason now) :=
  (ownersKept_revokeTokensOf r).bind fun _ => (ownersKept_revokeSessionsOf r reason now).bind
    fun _ => ownersKept_atomic fun _ _ => rfl

theorem ownersKept_guarded {g : Guards} {early : Option HttpError}
    {body : User → Admin (Outcome α)} {f : α → AdminReply}
    (hbody : ∀ u, OwnersKept own (body u)) :
    OwnersKept own (replyOf f (guarded app g r early body)) := by
  refine OwnersKept.bind ?_ fun _ => ownersKept_ret _
  unfold guarded
  split
  · exact ownersKept_ret _
  · split
    · exact ownersKept_ret _
    · refine OwnersKept.bind (ownersKept_atomic fun _ _ => rfl) fun found => ?_
      unfold checkTarget
      split
      · exact ownersKept_ret _
      · exact ownersKept_ret _
      · split
        · exact ownersKept_ret _
        · exact hbody _

theorem ownersKept_handle (r : Request) : OwnersKept own (handle app r) := by
  unfold handle
  split
  · refine ownersKept_guarded fun u => (ownersKept_updateUserInDb r _).bind fun _ => ?_
    exact (ownersKept_revokeTokensOf r).bind fun _ => (ownersKept_revokeSessionsOf r _ _).bind
      fun _ => ownersKept_ret _
  · refine ownersKept_guarded fun u => (ownersKept_updateUserInDb r _).bind fun _ => ?_
    split
    · exact (ownersKept_endAccess r _ _).bind fun _ => ownersKept_ret _
    · exact OwnersKept.bind (ownersKept_atomic fun _ _ => rfl) fun _ => ownersKept_ret _
  · refine ownersKept_guarded fun u => ?_
    split
    · exact ownersKept_ret _
    · refine (ownersKept_updateUserInDb r _).bind fun _ => ?_
      split
      · exact (ownersKept_endAccess r _ _).bind fun _ => ownersKept_ret _
      · exact OwnersKept.bind (ownersKept_atomic fun _ _ => rfl) fun _ => ownersKept_ret _
  · refine ownersKept_guarded fun u => (ownersKept_updateUserInDb r _).bind fun _ => ?_
    exact (ownersKept_endAccess r _ _).bind fun _ => ownersKept_ret _
  · refine OwnersKept.bind ?_ fun _ => ownersKept_ret _
    exact (ownersKept_revokeSessionsOf r _ _).bind fun _ => (ownersKept_revokeTokensOf r).bind
      fun _ => ownersKept_ret _

theorem ownersKept_adminProgram (call : AdminCall) : OwnersKept own (adminProgram app call) := by
  cases call with
  | request r =>
    unfold adminProgram
    dsimp only
    split
    · exact ownersKept_ret _
    · exact ownersKept_handle r
  | refreshRevokedUsers =>
    refine fun s t ht _ => ⟨trivial, ht, fun r op heq => (nomatch heq), ?_⟩
    refine obeys_sweep (fun collected remaining t _ => ?_) (fun collected t ht => ?_) _ _ _
    · exact ⟨trivial, fun r op heq => (nomatch heq)⟩
    · exact ⟨trivial, ht, fun r op heq => (nomatch heq)⟩

end Protocols

/-- The stored role of the account is `admin` or `super_admin`. -/
def HoldsOffice (db x : String) (s : AppState) : Prop :=
  ∃ d, s.findUser db x = some d ∧
    (d.role = some UserRole.admin.value ∨ d.role = some UserRole.superAdmin.value)

/-- Role, status, flag, sessions and refresh tokens of the account are the same. -/
structure Untouched (db x : String) (s t : AppState) : Prop where
  account : (t.findUser db x).map (fun d => (d.role, d.status, d.disabled)) =
    (s.findUser db x).map (fun d => (d.role, d.status, d.disabled))
  sessions : sessionsOf x (t.databases db).auth = sessionsOf x (s.databases db).auth
  tokens : tokensOf x (t.databases db).auth = tokensOf x (s.databases db).auth

/-- A request of an `admin` past its look-up is about an account without office,
or about his own. -/
def BelowOffice (l : AdminOp) (s : AppState) : Prop :=
  ∀ r op, l = .account r op → op ≠ .findUser → r.Makes op ∧
    (r.action.change = some (.role .superAdmin) → r.actor.role = UserRole.superAdmin.value) ∧
    (r.actor.role = UserRole.admin.value → r.username ≠ r.actor.sub →
      ¬HoldsOffice r.database r.username s)

/-- No `admin` starts to revoke the sessions of another account with office, and
nobody is given one while a request of an `admin` about him, this one included, is
past its look-up. -/
def Careful (c : AdminPool) : Pool.Act Nat AdminCall → Prop
  | .start _ (.request r) =>
    r.action.change = none → r.actor.role = UserRole.admin.value → r.username ≠ r.actor.sub →
      ¬HoldsOffice r.database r.username c.state
  | .start _ .refreshRevokedUsers => True
  | .turn i =>
    ∀ r role, (c.procs i).next? = some (.account r (.updateUser (.role role))) →
      role.isProtected = true → ∀ j r' op, (c.procs j).next? = some (.account r' op) →
        op ≠ .findUser → r'.actor.role = UserRole.admin.value →
          r'.About r.database r.username → r'.username = r'.actor.sub

section Offices

variable {app : App} {s t : AppState} {db x : String}

theorem isProtected_of_office {d : UserDoc} {u : User} (h : docToUser app.decrypt d = .ok u)
    (hd : d.role = some UserRole.admin.value ∨ d.role = some UserRole.superAdmin.value) :
    u.role.isProtected = true := by
  have hrole := userRole_ok_iff.mp (userRole_of_docToUser h)
  rcases hd with hd | hd
  · rw [hd, Option.getD_some, UserRole.ofValue_value] at hrole
    rw [← Option.some.inj hrole]
    rfl
  · rw [hd, Option.getD_some, UserRole.ofValue_value] at hrole
    rw [← Option.some.inj hrole]
    rfl

theorem isProtected_of_value {role : UserRole}
    (h : some role.value = some UserRole.admin.value ∨
      some role.value = some UserRole.superAdmin.value) : role.isProtected = true := by
  cases role with
  | superAdmin => rfl
  | admin => rfl
  | analyst => simp [UserRole.value] at h
  | viewer => simp [UserRole.value] at h

theorem holdsOffice_does {l : AdminOp} (hdoes : (adminScript app).does l s t)
    (h : HoldsOffice db x t) :
    HoldsOffice db x s ∨ ∃ r role, l = .account r (.updateUser (.role role)) ∧
      role.isProtected = true ∧ r.About db x := by
  obtain ⟨d, hd, hoffice⟩ := h
  rcases update_or_sameUsers hdoes with ⟨r, change, rfl, rfl⟩ | hsame
  · by_cases htarget : db = r.database ∧ x = r.username
    · obtain ⟨rfl, rfl⟩ := htarget
      rw [AppState.findUser_updateUser_self, Option.map_eq_some_iff] at hd
      obtain ⟨e, he, rfl⟩ := hd
      cases change with
      | role role => exact Or.inr ⟨r, role, rfl, isProtected_of_value hoffice, rfl, rfl⟩
      | status disabled status => exact Or.inl ⟨e, he, hoffice⟩
      | deleted now => exact Or.inl ⟨e, he, hoffice⟩
    · rw [AppState.findUser_updateUser_other _ htarget] at hd
      exact Or.inl ⟨d, hd, hoffice⟩
  · rw [hsame] at hd
    exact Or.inl ⟨d, hd, hoffice⟩

theorem not_holdsOffice_of_admitted {r : Request} (h : r.Admitted app s)
    (hrole : r.actor.role = UserRole.admin.value) : ¬HoldsOffice r.database r.username s := by
  rintro ⟨d, hd, hoffice⟩
  obtain ⟨e, u, he, hu, hprotected⟩ := h
  have heq : e = d := Option.some.inj (he.symm.trans hd)
  rw [← heq] at hoffice
  have hsuper := hprotected (isProtected_of_office hu hoffice)
  rw [hrole] at hsuper
  exact absurd hsuper (by decide)

theorem belowOffice_first {call : AdminCall} {l : AdminOp}
    (hcall : ∀ r, call = .request r → r.action.change = none →
      r.actor.role = UserRole.admin.value → r.username ≠ r.actor.sub →
        ¬HoldsOffice r.database r.username s)
    (hl : (adminProgram app call).next? = some l) : BelowOffice l s := by
  intro r op heq hop
  rcases next?_adminProgram hl with ⟨r', hr', hfirst | ⟨op', hfirst, hnone⟩⟩ | ⟨-, hfirst⟩
  · cases heq.symm.trans hfirst
    exact absurd rfl hop
  · cases heq.symm.trans hfirst
    refine ⟨trivial, fun h => ?_, hcall r hr' hnone⟩
    rw [hnone] at h
    cases h
  · cases heq.symm.trans hfirst

theorem belowOffice_perform {c : AdminPool}
    (h : Pool.Scripted (adminScript app) (fun _ => True) BelowOffice c)
    (act : Pool.Act Nat AdminCall) (hact : Careful c act) :
    Pool.Scripted (adminScript app) (fun _ => True) BelowOffice
      (c.perform (adminProgram app) act) := by
  cases act with
  | start i call =>
    refine h.start i (always_plays_adminProgram call) fun l hl => belowOffice_first ?_ hl
    intro r hr
    rw [hr] at hact
    exact hact
  | turn i =>
    refine h.turn i fun l hl hbelow hdoes =>
      ⟨trivial, fun j l' _ hl' hbelow' => ?_, fun l' hnext => ?_⟩
    · intro r op heq hop
      obtain ⟨hmakes, hescalation, hlow⟩ := hbelow' r op heq hop
      refine ⟨hmakes, hescalation, fun hrole hself hoffice => ?_⟩
      rcases holdsOffice_does hdoes hoffice with hbefore | ⟨r', role, rfl, hprotected, habout⟩
      · exact hlow hrole hself hbefore
      · rw [heq] at hl'
        exact hself (hact r' role hl hprotected j r op hl' hop hrole ⟨habout.1.symm, habout.2.symm⟩)
    · cases l with
      | account r op =>
        obtain ⟨-, ⟨op', rfl, hop', hmakes, hentitled⟩, hadmitted⟩ := hnext
        intro r' op'' heq hop''
        cases heq
        refine ⟨hmakes, hentitled.escalation, fun hrole hself hoffice => ?_⟩
        by_cases hfind : op = .findUser
        · rw [hfind] at hdoes
          rw [show (c.turn i).state = c.state from hdoes] at hoffice
          exact not_holdsOffice_of_admitted (hadmitted hfind) hrole hoffice
        · rcases holdsOffice_does hdoes hoffice with hbefore | ⟨r', role, heq, hprotected, habout⟩
          · exact (hbelow r op rfl hfind).2.2 hrole hself hbefore
          · cases heq
            exact hself (hact r role hl hprotected i r _ hl hfind hrole ⟨rfl, rfl⟩)
      | openUsers =>
        intro r op heq
        cases heq.symm.trans hnext
      | usersCursor collected remaining =>
        cases remaining with
        | nil => exact absurd hnext id
        | cons y rest =>
          intro r op heq
          cases heq.symm.trans hnext

theorem untouched_of_sameUsers (hsame : SameUsers s t)
    (hsessions : sessionsOf x (t.databases db).auth = sessionsOf x (s.databases db).auth)
    (htokens : tokensOf x (t.databases db).auth = tokensOf x (s.databases db).auth) :
    Untouched db x s t :=
  ⟨by rw [hsame], hsessions, htokens⟩

theorem untouched_does {own : String → Ownership} {r : Request} {op : AccountOp}
    (hbelow : BelowOffice (.account r op) s)
    (hdoes : (adminScript app).does (.account r op) s t)
    (hown : (adminProtocol own).does (.account r op) s t)
    (hrole : r.actor.role = UserRole.admin.value)
    (hother : ¬(db = r.database ∧ x = r.actor.sub)) (hoffice : HoldsOffice db x s) :
    Untouched db x s t := by
  by_cases hfind : op = .findUser
  · rw [hfind] at hdoes
    rw [show t = s from hdoes]
    exact ⟨rfl, rfl, rfl⟩
  · have htarget : ¬(db = r.database ∧ x = r.username) := by
      rintro ⟨rfl, rfl⟩
      exact (hbelow r op rfl hfind).2.2 hrole (fun hself => hother ⟨rfl, hself⟩) hoffice
    obtain ⟨hsessions, htokens⟩ := hown r op rfl db x htarget
    rcases update_or_sameUsers hdoes with ⟨r', change, heq, ht⟩ | hsame
    · cases heq
      refine ⟨?_, hsessions, htokens⟩
      rw [ht, AppState.findUser_updateUser_other _ htarget]
    · exact untouched_of_sameUsers hsame hsessions htokens

theorem superAdmin_does {r : Request} {op : AccountOp} (hbelow : BelowOffice (.account r op) s)
    (hdoes : (adminScript app).does (.account r op) s t)
    (hrole : r.actor.role = UserRole.admin.value) {d' : UserDoc}
    (hd' : t.findUser db x = some d') (hsuper : d'.role = some UserRole.superAdmin.value) :
    ∃ d, s.findUser db x = some d ∧ d.role = some UserRole.superAdmin.value := by
  rcases update_or_sameUsers hdoes with ⟨r', change, heq, rfl⟩ | hsame
  · cases heq
    obtain ⟨hmakes, hescalation, -⟩ := hbelow r _ rfl AccountOp.noConfusion
    by_cases htarget : db = r.database ∧ x = r.username
    · obtain ⟨rfl, rfl⟩ := htarget
      rw [AppState.findUser_updateUser_self, Option.map_eq_some_iff] at hd'
      obtain ⟨d, hd, rfl⟩ := hd'
      cases change with
      | role role =>
        have hvalue : role = .superAdmin := by
          have heq := congrArg UserRole.ofValue (Option.some.inj hsuper)
          rw [UserRole.ofValue_value, UserRole.ofValue_value] at heq
          exact Option.some.inj heq
        rw [hvalue] at hmakes
        have hactor := hescalation hmakes
        rw [hrole] at hactor
        exact absurd hactor (by decide)
      | status disabled status => exact ⟨d, hd, hsuper⟩
      | deleted now => exact ⟨d, hd, hsuper⟩
    · rw [AppState.findUser_updateUser_other _ htarget] at hd'
      exact ⟨d', hd', hsuper⟩
  · rw [hsame] at hd'
    exact ⟨d', hd', hsuper⟩

end Offices

/-- At no turn does a request of an `admin` touch another account with office, or
make anybody a `super_admin`. -/
def HierarchyKept (app : App) (s₀ : AppState) (acts : AdminActs) : Prop :=
  ∀ before i after, acts = before ++ .turn i :: after →
    let c := (adminIdle s₀).performs (adminProgram app) before
    ∀ r op, (c.procs i).next? = some (.account r op) → r.actor.role = UserRole.admin.value →
      (∀ db x, ¬(db = r.database ∧ x = r.actor.sub) → HoldsOffice db x c.state →
        Untouched db x c.state (c.turn i).state) ∧
      ∀ db x d', (c.turn i).state.findUser db x = some d' →
        d'.role = some UserRole.superAdmin.value →
          ∃ d, c.state.findUser db x = some d ∧ d.role = some UserRole.superAdmin.value

/-- In every interleaving of careful steps only a `super_admin` touches an account
with office. -/
theorem hierarchy_kept (app : App) (own : String → Ownership) (s₀ : AppState)
    (hs₀ : ∀ db, Owned (own db) (s₀.databases db).auth) (acts : AdminActs)
    (hacts : Pool.Meets (adminProgram app) Careful (adminIdle s₀) acts) :
    HierarchyKept app s₀ acts := by
  intro before i after hsplit c r op hl hrole
  rw [hsplit, Pool.meets_append] at hacts
  have hidle : Pool.Scripted (adminScript app) (fun _ => True) BelowOffice (adminIdle s₀) :=
    ⟨trivial, fun _ => trivial, fun _ _ h => nomatch h⟩
  have hc : Pool.Scripted (adminScript app) (fun _ => True) BelowOffice c :=
    hacts.1.invariant (fun c act h hact => belowOffice_perform h act hact) hidle
  have howners : Pool.Obeyed (adminProtocol own) c :=
    Pool.Obeyed.performs ⟨hs₀, fun _ => trivial⟩ fun call s => ownersKept_adminProgram call s
  have hbelow := hc.labels i _ hl
  have hdoes := Pool.does_of_plays (hc.plays i).here hl
  refine ⟨fun db x hother hoffice => ?_, fun db x d' hd' hsuper => ?_⟩
  · exact untouched_does hbelow hdoes (howners.does hl) hrole hother hoffice
  · exact superAdmin_does hbelow hdoes hrole hd' hsuper

def bossSession : SessionDoc where
  sessionId := "session"
  userId := "1"
  username := "boss"
  tenantId := none
  createdAt := 0
  lastActiveAt := 0
  expiresAt := 10
  ipAddress := ""
  userAgent := ""
  isActive := true
  revokedAt := none
  revokedReason := none
  refreshTokenFamily := "family"

/-- A `super_admin` with a session, and another user. -/
def bossAndClerk : AppState where
  databases := fun _ =>
    ⟨[{ id := "1", username := "boss", email := "boss@example.org", role := some "super_admin" },
      { id := "2", username := "clerk", email := "clerk@example.org" }], ⟨[], [bossSession]⟩⟩
  revokedUsernames := []
  revokedSessionIds := []

def byAdmin (username : String) (action : Action) : AdminCall :=
  .request ⟨{ sub := "admin", role := "admin" }, "sentora", username, action⟩

theorem owned_bossAndClerk (db : String) :
    Owned ⟨fun _ => "boss", fun _ => "boss"⟩ (bossAndClerk.databases db).auth := by
  refine ⟨fun d hd => ?_, List.forall_mem_nil _⟩
  rw [List.mem_singleton.mp hd]
  exact ⟨rfl, fun _ => rfl⟩

/-- An `admin` disables the other user. -/
theorem disabling_clerk_kept :
    HierarchyKept sampleApp bossAndClerk
      (.start 0 (byAdmin "clerk" (.updateUserDisabled true 0)) :: List.replicate 5 (.turn 0)) := by
  refine hierarchy_kept sampleApp (fun _ => ⟨fun _ => "boss", fun _ => "boss"⟩) bossAndClerk
    owned_bossAndClerk _ ⟨?_, ?_, ?_, ?_, ?_, ?_, trivial⟩
  · exact fun h => nomatch h
  all_goals exact fun r role hl => nomatch hl

/-- An `admin` ends the session of the `super_admin`. -/
theorem admin_revokes_super_admin :
    ¬∀ (app : App) (own : String → Ownership) (s₀ : AppState),
      (∀ db, Owned (own db) (s₀.databases db).auth) →
        ∀ acts : AdminActs, HierarchyKept app s₀ acts := by
  intro hclaim
  have hkept := hclaim sampleApp (fun _ => ⟨fun _ => "boss", fun _ => "boss"⟩) bossAndClerk
    owned_bossAndClerk [.start 0 (byAdmin "boss" (.adminRevokeSessions 5)), .turn 0, .turn 0]
  have hturn := hkept [.start 0 (byAdmin "boss" (.adminRevokeSessions 5)), .turn 0] 0 [] rfl _ _
    rfl rfl
  have huntouched := hturn.1 "sentora" "boss" (by decide) ⟨_, rfl, Or.inr rfl⟩
  exact absurd huntouched.sessions (by decide)

end Sentora.Auth
