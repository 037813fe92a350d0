import Sentora.Auth.Admin

namespace Sentora.Auth

open Lib Process

namespace AppState

variable {s : AppState} {db db' x y : String}

@[simp] theorem setDatabase_self (d : Database) : (s.setDatabase db d).databases db = d :=
  Function.update_self ..

theorem setDatabase_other (d : Database) (h : db' ≠ db) :
    (s.setDatabase db d).databases db' = s.databases db' :=
  Function.update_of_ne h ..

theorem findUser_updateUser_self (change : Change) :
    (s.updateUser db x change).findUser db x = (s.findUser db x).map change.apply := by
  unfold findUser updateUser
  rw [setDatabase_self]
  exact findDoc_updateDoc_self (fun _ => Change.apply_username change) _

theorem findUser_updateUser_other (change : Change) (h : ¬(db' = db ∧ y = x)) :
    (s.updateUser db x change).findUser db' y = s.findUser db' y := by
  unfold findUser updateUser
  by_cases hdb : db' = db
  · subst hdb
    have hy : y ≠ x := fun heq => h ⟨rfl, heq⟩
    rw [setDatabase_self]
    exact findDoc_updateDoc_other (fun _ => Change.apply_username change) hy _
  · rw [setDatabase_other _ hdb]

@[simp] theorem findUser_setSessions (c : CacheState) :
    (s.setSessions db c).findUser db' y = s.findUser db' y := by
  unfold findUser
  show findDoc y ((s.setDatabase db ⟨(s.databases db).users, c.store⟩).databases db').users = _
  by_cases hdb : db' = db
  · rw [hdb, setDatabase_self]
  · rw [setDatabase_other _ hdb]

@[simp] theorem sessions_setSessions (c : CacheState) : (s.setSessions db c).sessions db = c := by
  unfold sessions setSessions
  dsimp only
  rw [setDatabase_self]

end AppState

/-- The update a request makes. -/
def Action.change : Action → Option Change
  | updateUserRole role _ => some (.role role)
  | updateUserDisabled disabled _ =>
    some (.status disabled (if disabled then .deactivated else .active))
  | updateUserStatus status _ => some (.status (decide (status ∈ nonActive)) status)
  | deleteUser deletedAt _ => some (.deleted deletedAt)
  | adminRevokeSessions _ => none

/-- Whether its user is marked as revoked or restored after an update. -/
def Change.marks : Change → Option Bool
  | role _ => none
  | status disabled _ => some disabled
  | deleted _ => some true

def Request.Makes (r : Request) : AccountOp → Prop
  | .findUser => r.action.change.isSome = true
  | .updateUser change => r.action.change = some change
  | .sessions _ => True
  | .markRevoked => r.action.change.bind Change.marks = some true
  | .markRestored => r.action.change.bind Change.marks = some false

/-- `require_role` lets the actor through. -/
def Request.Authorized (r : Request) : Prop :=
  r.actor.role = UserRole.admin.value ∨ r.actor.role = UserRole.superAdmin.value

/-- What an endpoint has made sure of before its first step. -/
structure Request.Entitled (r : Request) : Prop where
  authorized : r.Authorized
  other : r.action.change.isSome = true → r.username ≠ r.actor.sub
  escalation : r.action.change = some (.role .superAdmin) →
    r.actor.role = UserRole.superAdmin.value

/-- What the look-up of the user has made sure of. -/
def Request.Admitted (app : App) (r : Request) (s : AppState) : Prop :=
  ∃ d u, s.findUser r.database r.username = some d ∧ docToUser app.decrypt d = .ok u ∧
    (u.role.isProtected = true → r.actor.role = UserRole.superAdmin.value)

def AccountOp.isMark : AccountOp → Bool
  | markRevoked | markRestored => true
  | _ => false

def Past (r : Request) (l : AdminOp) : Prop :=
  ∃ op, l = .account r op ∧ op ≠ .findUser ∧ r.Makes op ∧ r.Entitled

def adminScript (app : App) : Script AppState AdminOp where
  does
    | .account r op, s, t =>
      match op with
      | .findUser => t = s
      | .updateUser change => t = s.updateUser r.database r.username change
      | .sessions _ => ∃ c, t = s.setSessions r.database c
      | .markRevoked => t = s.markUserRevoked r.username
      | .markRestored => t = s.markUserRestored r.username
    | .openUsers, s, t => t = s
    | .usersCursor collected [], s, t => t = { s with revokedUsernames := collected }
    | .usersCursor _ (_ :: _), s, t => t = s
  next
    | .account r op, s, l =>
      op.isMark = false ∧ Past r l ∧ (op = .findUser → r.Admitted app s)
    | .openUsers, s, l =>
      l = .usersCursor [] ((s.databases app.mongoDb).users.map UserDoc.username)
    | .usersCursor _ [], _, _ => False
    | .usersCursor collected (x :: rest), s, l =>
      l = .usersCursor (if s.collects app x then collected ++ [x] else collected) rest

def SameUsers (s t : AppState) : Prop := ∀ db x, t.findUser db x = s.findUser db x

theorem update_or_sameUsers {app : App} {l : AdminOp} {s t : AppState}
    (h : (adminScript app).does l s t) :
    (∃ r change, l = .account r (.updateUser change) ∧
        t = s.updateUser r.database r.username change) ∨ SameUsers s t := by
  cases l with
  | account r op =>
    cases op with
    | findUser => exact Or.inr fun _ _ => by rw [show t = s from h]
    | updateUser change => exact Or.inl ⟨r, change, rfl, h⟩
    | sessions op =>
      obtain ⟨c, rfl⟩ : ∃ c, t = s.setSessions r.database c := h
      exact Or.inr fun _ _ => AppState.findUser_setSessions c
    | markRevoked =>
      have hmark : t = s.markUserRevoked r.username := h
      rw [hmark]
      exact Or.inr fun _ _ => rfl
    | markRestored =>
      exact Or.inr fun _ _ => by rw [show t = s.markUserRestored r.username from h]; rfl
  | openUsers => exact Or.inr fun _ _ => by rw [show t = s from h]
  | usersCursor collected remaining =>
    cases remaining with
    | nil =>
      exact Or.inr fun _ _ => by rw [show t = { s with revokedUsernames := collected } from h]; rfl
    | cons x rest => exact Or.inr fun _ _ => by rw [show t = s from h]

section Steps

variable {app : App} {r : Request}
variable {α : Type} {body : User → Admin (Outcome α)} {early : Option HttpError} {l : AdminOp}
  {g : Guards}

def Acting (r : Request) (l : AdminOp) : Prop :=
  ∃ op, l = .account r op ∧ op ≠ .findUser ∧ op.isMark = false ∧ r.Makes op ∧ r.Entitled

theorem past_of_acting (h : Acting r l) : Past r l := by
  obtain ⟨op, hl, hop, -, hmakes, hr⟩ := h
  exact ⟨op, hl, hop, hmakes, hr⟩

theorem next_of_acting (h : Acting r l) (s : AppState) {l' : AdminOp}
    (h' : Past r l') : (adminScript app).next l s l' := by
  obtain ⟨op, rfl, hop, hmark, -, -⟩ := h
  exact ⟨hmark, h', fun heq => absurd heq hop⟩

abbrev PlaysPast {α : Type} (app : App) (r : Request) (p : Admin α) : Prop :=
  PlaysFrom (adminScript app) (Past r) p

theorem playsPast_bind {α β : Type} {p : Admin α} {f : α → Admin β}
    (hp : Within (adminScript app) (Acting r) p) (hf : ∀ a, PlaysPast app r (f a)) :
    PlaysPast app r (p >>= f) :=
  hp.playsFrom_bind (fun _ h => past_of_acting h) (fun _ s _ h h' => next_of_acting h s h') hf

theorem within_inSessions (hr : r.Entitled) (p : Process CacheState CacheOp α) :
    Within (adminScript app) (Acting r) (inSessions r p) := by
  refine within_zoom (fun op => ?_) (fun op c s => ?_) p
  · exact ⟨.sessions op, rfl, AccountOp.noConfusion, rfl, trivial, hr⟩
  · exact ⟨c, rfl⟩

theorem within_updateUserInDb {change : Change} (hr : r.Entitled)
    (h : r.action.change = some change) :
    Within (adminScript app) (Acting r) (updateUserInDb r change) :=
  within_atomic ⟨.updateUser change, rfl, AccountOp.noConfusion, rfl, h, hr⟩ fun _ => rfl

theorem playsPast_markRevoked (hr : r.Entitled)
    (h : r.action.change.bind Change.marks = some true) (a : α) :
    PlaysPast app r (markRevoked r >>= fun _ => pure a) := by
  refine ⟨⟨fun s => ⟨rfl, fun l hl => nomatch hl⟩, fun _ => trivial⟩, fun l hl => ?_⟩
  exact ⟨.markRevoked, (Option.some.inj hl).symm, AccountOp.noConfusion, h, hr⟩

theorem playsPast_markRestored (hr : r.Entitled)
    (h : r.action.change.bind Change.marks = some false) (a : α) :
    PlaysPast app r (markRestored r >>= fun _ => pure a) := by
  refine ⟨⟨fun s => ⟨rfl, fun l hl => nomatch hl⟩, fun _ => trivial⟩, fun l hl => ?_⟩
  exact ⟨.markRestored, (Option.some.inj hl).symm, AccountOp.noConfusion, h, hr⟩

theorem playsPast_endAccess (hr : r.Entitled)
    (h : r.action.change.bind Change.marks = some true) (reason : String) (now : Nat) (a : α) :
    PlaysPast app r (endAccess r reason now >>= fun _ => pure a) := by
  unfold endAccess
  rw [bind_assoc]
  refine playsPast_bind (within_inSessions hr _) fun _ => ?_
  rw [bind_assoc]
  exact playsPast_bind (within_inSessions hr _) fun _ => playsPast_markRevoked hr h a

theorem getUser_ok_some_iff {db username : String} {s : AppState} {u : User} :
    s.getUser app db username = .ok (some u) ↔
      ∃ d, s.findUser db username = some d ∧ docToUser app.decrypt d = .ok u := by
  unfold AppState.getUser
  cases s.findUser db username with
  | none => simp
  | some d =>
    cases hdoc : docToUser app.decrypt d with
    | error e => simp [Except.map, hdoc]
    | ok v => simp [Except.map, hdoc]

theorem checkTarget_cases (app : App) (g : Guards) (body : User → Admin (Outcome α))
    (s : AppState) :
    ((∃ e, checkTarget g r body (s.getUser app r.database r.username) = .ret (.error e)) ∧
        ∀ u, s.getUser app r.database r.username = .ok (some u) →
          ¬(u.role.isProtected = true → r.actor.role = UserRole.superAdmin.value)) ∨
      ∃ u, checkTarget g r body (s.getUser app r.database r.username) = body u ∧
        s.getUser app r.database r.username = .ok (some u) ∧
        (u.role.isProtected = true → r.actor.role = UserRole.superAdmin.value) := by
  cases s.getUser app r.database r.username with
  | error e => exact Or.inl ⟨⟨_, rfl⟩, fun u h => nomatch h⟩
  | ok found =>
    cases found with
    | none => exact Or.inl ⟨⟨_, rfl⟩, fun u h => nomatch h⟩
    | some u =>
      unfold checkTarget
      by_cases h : u.role.isProtected = true ∧ r.actor.role ≠ UserRole.superAdmin.value
      · refine Or.inl ⟨⟨_, if_pos h⟩, fun v hv htarget => ?_⟩
        cases hv
        exact h.2 (htarget h.1)
      · refine Or.inr ⟨u, if_neg h, rfl, fun hprotected => ?_⟩
        by_contra hrole
        exact h ⟨hprotected, hrole⟩

/-- The look-up comes first, and only a user that passes the guards is acted
upon. -/
theorem always_plays_guarded (f : α → AdminReply)
    (hr : early = none → r.username ≠ r.actor.sub → r.Entitled)
    (hbody : ∀ u, r.Entitled → PlaysPast app r (replyOf f (body u))) :
    Always (Plays (adminScript app)) (replyOf f (guarded app g r early body)) := by
  unfold guarded
  by_cases hself : r.username = r.actor.sub
  · rw [if_pos hself]
    trivial
  · rw [if_neg hself]
    cases early with
    | some e => trivial
    | none =>
      have hrest : ∀ s : AppState, Always (Plays (adminScript app))
          (replyOf f (checkTarget g r body (s.getUser app r.database r.username))) ∧
          ∀ l, (replyOf f (checkTarget g r body
              (s.getUser app r.database r.username))).next? = some l →
            Past r l ∧ r.Admitted app s := by
        intro s
        rcases checkTarget_cases app g body s with ⟨⟨e, heq⟩, -⟩ | ⟨u, heq, hu, hprotected⟩
        · rw [heq]
          refine ⟨trivial, fun l hl => ?_⟩
          cases hl
        · rw [heq]
          obtain ⟨hplays, hpast⟩ := hbody u (hr rfl hself)
          refine ⟨hplays, fun l hl => ⟨hpast l hl, ?_⟩⟩
          obtain ⟨d, hd, hdoc⟩ := getUser_ok_some_iff.mp hu
          exact ⟨d, u, hd, hdoc, hprotected⟩
      refine ⟨fun s => ⟨rfl, fun l hl => ?_⟩, fun s => (hrest s).1⟩
      obtain ⟨hpast, hadmitted⟩ := (hrest s).2 l hl
      exact ⟨rfl, hpast, fun _ => hadmitted⟩

/-- The request gets past the guards of an endpoint, with the user it found. -/
structure Passes (app : App) (r : Request) (early : Option HttpError) (s : AppState) (u : User) :
    Prop where
  early : early = none
  other : r.username ≠ r.actor.sub
  found : s.getUser app r.database r.username = .ok (some u)
  target : u.role.isProtected = true → r.actor.role = UserRole.superAdmin.value

theorem run_guarded (f : α → AdminReply) (s : AppState) :
    (((replyOf f (guarded app g r early body)).run s).1 = s ∧ ∀ u, ¬Passes app r early s u) ∨
      ∃ u, Passes app r early s u ∧
        ((replyOf f (guarded app g r early body)).run s).1 = ((body u).run s).1 := by
  have hreply : ∀ p : Admin (Outcome α), ((replyOf f p).run s).1 = (p.run s).1 := by
    intro p
    unfold replyOf
    rw [run_bind]
    rfl
  rw [hreply]
  unfold guarded
  by_cases hself : r.username = r.actor.sub
  · rw [if_pos hself]
    exact Or.inl ⟨rfl, fun u h => h.other hself⟩
  · rw [if_neg hself]
    cases early with
    | some e => exact Or.inl ⟨rfl, fun u h => nomatch h.early⟩
    | none =>
      dsimp only
      rw [run_bind, getUserByUsername, run_read]
      dsimp only
      rcases checkTarget_cases app g body s with ⟨⟨e, heq⟩, hnone⟩ | ⟨u, heq, hu, htarget⟩
      · rw [heq]
        exact Or.inl ⟨rfl, fun u h => hnone u h.found h.target⟩
      · rw [heq]
        exact Or.inr ⟨u, ⟨rfl, hself, hu, htarget⟩, rfl⟩

theorem entitled_of_change {change : Change} (hchange : r.action.change = some change)
    (hne : change ≠ .role .superAdmin)
    (hr : r.Authorized)
    (hself : r.username ≠ r.actor.sub) : r.Entitled := by
  refine ⟨hr, fun _ => hself, fun h => ?_⟩
  rw [hchange] at h
  exact absurd (Option.some.inj h) hne

theorem entitled_of_role {role : UserRole} {now : Nat}
    (haction : r.action = .updateUserRole role now)
    (hr : r.Authorized)
    (hrole : ¬(role = .superAdmin ∧ r.actor.role ≠ UserRole.superAdmin.value))
    (hself : r.username ≠ r.actor.sub) : r.Entitled := by
  refine ⟨hr, fun _ => hself, fun h => ?_⟩
  rw [haction] at h
  by_contra hnot
  exact hrole ⟨Change.role.inj (Option.some.inj h), hnot⟩

theorem always_plays_handle (hauth : r.Authorized) :
    Always (Plays (adminScript app)) (handle app r) := by
  unfold handle
  cases haction : r.action with
  | updateUserRole role now =>
    have hchange : r.action.change = some (.role role) := by rw [haction]; rfl
    refine always_plays_guarded _ (fun hearly hself => ?_) fun u hr => ?_
    · refine entitled_of_role haction hauth (fun h => ?_) hself
      rw [if_pos h] at hearly
      cases hearly
    · unfold replyOf
      rw [bind_assoc]
      refine playsPast_bind (within_updateUserInDb hr hchange) fun _ => ?_
      rw [bind_assoc]
      refine playsPast_bind (within_inSessions hr _) fun _ => ?_
      rw [bind_assoc]
      exact playsPast_bind (within_inSessions hr _) fun _ => playsFrom_ret _
  | updateUserDisabled disabled now =>
    have hchange : r.action.change =
        some (.status disabled (if disabled then .deactivated else .active)) := by
      rw [haction]
      rfl
    have hmarks : r.action.change.bind Change.marks = some disabled := by rw [hchange]; rfl
    refine always_plays_guarded _
      (fun _ hself => entitled_of_change hchange Change.noConfusion hauth hself) fun u hr => ?_
    unfold replyOf
    rw [bind_assoc]
    refine playsPast_bind (within_updateUserInDb hr hchange) fun _ => ?_
    cases disabled with
    | true =>
      rw [if_pos rfl, bind_assoc]
      exact playsPast_endAccess hr hmarks _ now _
    | false =>
      rw [if_neg Bool.false_ne_true, bind_assoc]
      exact playsPast_markRestored hr hmarks _
  | updateUserStatus status now =>
    have hchange : r.action.change = some (.status (decide (status ∈ nonActive)) status) := by
      rw [haction]
      rfl
    have hmarks : r.action.change.bind Change.marks = some (decide (status ∈ nonActive)) := by
      rw [hchange]
      rfl
    refine always_plays_guarded _
      (fun _ hself => entitled_of_change hchange Change.noConfusion hauth hself) fun u hr => ?_
    unfold replyOf
    split
    · exact playsFrom_ret _
    · rw [bind_assoc]
      refine playsPast_bind (within_updateUserInDb hr hchange) fun _ => ?_
      cases hdisabled : decide (status ∈ nonActive) with
      | true =>
        rw [hdisabled] at hmarks
        rw [if_pos rfl, bind_assoc]
        exact playsPast_endAccess hr hmarks _ now _
      | false =>
        rw [hdisabled] at hmarks
        rw [if_neg Bool.false_ne_true, bind_assoc]
        exact playsPast_markRestored hr hmarks _
  | deleteUser deletedAt now =>
    have hchange : r.action.change = some (.deleted deletedAt) := by rw [haction]; rfl
    have hmarks : r.action.change.bind Change.marks = some true := by rw [hchange]; rfl
    refine always_plays_guarded _
      (fun _ hself => entitled_of_change hchange Change.noConfusion hauth hself) fun u hr => ?_
    unfold replyOf
    rw [bind_assoc]
    refine playsPast_bind (within_updateUserInDb hr hchange) fun _ => ?_
    rw [bind_assoc]
    exact playsPast_endAccess hr hmarks _ now _
  | adminRevokeSessions now =>
    have hnone : r.action.change = none := by rw [haction]; rfl
    have hr : r.Entitled := by
      refine ⟨hauth, fun h => ?_, fun h => ?_⟩
      · rw [hnone] at h
        cases h
      · rw [hnone] at h
        cases h
    have hplays : PlaysPast app r (replyOf (fun _ => .done) (adminRevokeSessions r now)) := by
      unfold replyOf adminRevokeSessions
      rw [bind_assoc]
      refine playsPast_bind (within_inSessions hr _) fun _ => ?_
      rw [bind_assoc]
      exact playsPast_bind (within_inSessions hr _) fun _ => playsFrom_ret _
    exact hplays.1

theorem always_plays_refreshUsersFrom (collected remaining : List String) :
    Always (Plays (adminScript app)) (refreshUsersFrom app collected remaining) := by
  refine always_sweep trivial (fun collected remaining => ?_) collected remaining
  cases remaining with
  | nil => exact fun s => ⟨rfl, fun l hl => nomatch hl⟩
  | cons x rest =>
    refine fun s => ⟨rfl, fun l hl => ?_⟩
    dsimp only at hl
    show l = .usersCursor (if s.collects app x then collected ++ [x] else collected) rest
    by_cases hx : s.collects app x = true
    · rw [if_pos hx, sweep_next?] at hl
      rw [if_pos hx]
      exact (Option.some.inj hl).symm
    · rw [if_neg hx, sweep_next?] at hl
      rw [if_neg hx]
      exact (Option.some.inj hl).symm

theorem adminProgram_of_authorized (h : r.Authorized) :
    adminProgram app (.request r) = handle app r := by
  unfold adminProgram requireRole
  dsimp only
  by_cases hsuper : r.actor.role = "super_admin"
  · rw [if_pos hsuper]
  · have hadmin : ¬r.actor.role ∉ [UserRole.admin.value] := fun hnot =>
      hnot (List.mem_singleton.mpr (h.resolve_right hsuper))
    rw [if_neg hsuper, if_neg hadmin]

theorem adminProgram_of_not_authorized (app : App) (h : ¬r.Authorized) :
    ∃ e, adminProgram app (.request r) = .ret (.failed e) := by
  unfold adminProgram requireRole
  dsimp only
  have hadmin : r.actor.role ∉ [UserRole.admin.value] := fun hmem =>
    h (Or.inl (List.mem_singleton.mp hmem))
  have hsuper : ¬r.actor.role = "super_admin" := fun heq => h (Or.inr heq)
  rw [if_neg hsuper, if_pos hadmin]
  exact ⟨_, rfl⟩

theorem always_plays_adminProgram (call : AdminCall) :
    Always (Plays (adminScript app)) (adminProgram app call) := by
  cases call with
  | request r =>
    by_cases hr : r.Authorized
    · rw [adminProgram_of_authorized hr]
      exact always_plays_handle hr
    · obtain ⟨e, heq⟩ := adminProgram_of_not_authorized app hr
      rw [heq]
      trivial
  | refreshRevokedUsers =>
    refine ⟨fun s => ⟨rfl, fun l hl => ?_⟩, fun s => always_plays_refreshUsersFrom _ _⟩
    rw [refreshUsersFrom, sweep_next?] at hl
    exact (Option.some.inj hl).symm

theorem next?_guarded {f : α → AdminReply}
    (hl : (replyOf f (guarded app g r early body)).next? = some l) : l = .account r .findUser := by
  unfold guarded at hl
  split at hl
  · cases hl
  · split at hl
    · cases hl
    · exact (Option.some.inj hl).symm

theorem next?_handle (hl : (handle app r).next? = some l) :
    l = .account r .findUser ∨
      ∃ op, l = .account r (.sessions op) ∧ r.action.change = none := by
  unfold handle at hl
  cases haction : r.action with
  | updateUserRole role now =>
    rw [haction] at hl
    exact Or.inl (next?_guarded hl)
  | updateUserDisabled disabled now =>
    rw [haction] at hl
    exact Or.inl (next?_guarded hl)
  | updateUserStatus status now =>
    rw [haction] at hl
    exact Or.inl (next?_guarded hl)
  | deleteUser deletedAt now =>
    rw [haction] at hl
    exact Or.inl (next?_guarded hl)
  | adminRevokeSessions now =>
    rw [haction] at hl
    exact Or.inr ⟨_, (Option.some.inj hl).symm, rfl⟩

theorem next?_adminProgram {call : AdminCall}
    (hl : (adminProgram app call).next? = some l) :
    (∃ r, call = .request r ∧
        (l = .account r .findUser ∨
          ∃ op, l = .account r (.sessions op) ∧ r.action.change = none)) ∨
      call = .refreshRevokedUsers ∧ l = .openUsers := by
  cases call with
  | request r =>
    by_cases hr : r.Authorized
    · rw [adminProgram_of_authorized hr] at hl
      exact Or.inl ⟨r, rfl, next?_handle hl⟩
    · obtain ⟨e, heq⟩ := adminProgram_of_not_authorized app hr
      rw [heq] at hl
      cases hl
  | refreshRevokedUsers => exact Or.inr ⟨rfl, (Option.some.inj hl).symm⟩

theorem always_account (app : App) (r : Request) :
    Always (fun p => ∀ l, p.next? = some l → ∃ op, l = .account r op)
      (adminProgram app (.request r)) := by
  have hplays : PlaysFrom (adminScript app) (fun l => ∃ op, l = .account r op)
      (adminProgram app (.request r)) := by
    refine ⟨always_plays_adminProgram _, fun l hl => ?_⟩
    rcases next?_adminProgram hl with ⟨r', hr', hfirst | ⟨op, hfirst, -⟩⟩ | ⟨hcall, -⟩
    · cases hr'
      exact ⟨_, hfirst⟩
    · cases hr'
      exact ⟨_, hfirst⟩
    · cases hcall
  refine (hplays.always ?_).mono fun p hp => hp.2
  rintro l s l' ⟨op, rfl⟩ ⟨-, ⟨op', hl', -⟩, -⟩
  exact ⟨op', hl'⟩

end Steps

end Sentora.Auth
