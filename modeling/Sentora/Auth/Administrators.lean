import Sentora.Auth.AdminSteps

/-!
# Active super_admins

Whether an active `super_admin` is left, in every interleaving of the user
management.

An endpoint refuses a request about its own actor.  The actor is the one of the
token: nobody looks whether his account is still that of an active
`super_admin` when the update is made.
-/

namespace Sentora.Auth

open Lib Process

/-- Role `super_admin`, not disabled, and active. -/
def UserDoc.IsAdministrator (d : UserDoc) : Prop :=
  d.userRole = .ok .superAdmin ∧ d.disabled.getD false = false ∧ d.accountStatus = .ok .active

def AppState.Administers (s : AppState) (db x : String) : Prop :=
  ∃ d, s.findUser db x = some d ∧ d.IsAdministrator

def AppState.HasAdministrator (s : AppState) (db : String) : Prop := ∃ x, s.Administers db x

/-- The update leaves no active `super_admin`. -/
def Change.Removes : Change → Prop
  | role r => r ≠ .superAdmin
  | status disabled s => disabled = true ∨ s ≠ .active
  | deleted _ => True

theorem isAdministrator_apply {d : UserDoc} (h : d.IsAdministrator) {change : Change}
    (hchange : ¬change.Removes) : (change.apply d).IsAdministrator := by
  obtain ⟨hrole, hdisabled, hstatus⟩ := h
  cases change with
  | role r =>
    have hr : r = .superAdmin := by
      by_contra hne
      exact hchange hne
    rw [hr]
    refine ⟨?_, hdisabled, hstatus⟩
    rw [userRole_ok_iff]
    exact UserRole.ofValue_value .superAdmin
  | status disabled s =>
    have hs : disabled = false ∧ s = .active := by
      simpa [Change.Removes] using hchange
    rw [hs.1, hs.2]
    exact ⟨hrole, rfl, accountStatus_status false .active⟩
  | deleted now => exact absurd trivial hchange

section Steps

variable {app : App} {s t : AppState} {db x : String}

theorem administers_of_sameUsers (h : SameUsers s t) (hx : s.Administers db x) :
    t.Administers db x := by
  obtain ⟨d, hd, hadministrator⟩ := hx
  exact ⟨d, (h db x).trans hd, hadministrator⟩

theorem administers_updateUser_other {db' y : String} {change : Change}
    (h : ¬(db' = db ∧ y = x)) (hy : s.Administers db' y) :
    (s.updateUser db x change).Administers db' y := by
  obtain ⟨d, hd, hadministrator⟩ := hy
  exact ⟨d, (AppState.findUser_updateUser_other change h).trans hd, hadministrator⟩

theorem administers_updateUser_self {change : Change} (hchange : ¬change.Removes)
    (hx : s.Administers db x) : (s.updateUser db x change).Administers db x := by
  obtain ⟨d, hd, hadministrator⟩ := hx
  refine ⟨change.apply d, ?_, isAdministrator_apply hadministrator hchange⟩
  rw [AppState.findUser_updateUser_self, hd]
  rfl

def AboutOther (l : AdminOp) (_ : AppState) : Prop :=
  ∀ r change, l = .account r (.updateUser change) → r.username ≠ r.actor.sub

/-- No active `super_admin` of the database is removed by an actor who is none at
that time. -/
def InOffice (db : String) (c : AdminPool) : Pool.Act Nat AdminCall → Prop
  | .start _ _ => True
  | .turn i =>
    ∀ r change, (c.procs i).next? = some (.account r (.updateUser change)) → r.database = db →
      c.state.Administers db r.username → change.Removes → c.state.Administers db r.actor.sub

theorem hasAdministrator_does {l : AdminOp} (hdoes : (adminScript app).does l s t)
    (hl : AboutOther l s) (hs : s.HasAdministrator db)
    (hactor : ∀ r change, l = .account r (.updateUser change) → r.database = db →
      s.Administers db r.username → change.Removes → s.Administers db r.actor.sub) :
    t.HasAdministrator db := by
  obtain ⟨x, hx⟩ := hs
  rcases update_or_sameUsers hdoes with ⟨r, change, rfl, rfl⟩ | hsame
  · by_cases htarget : db = r.database ∧ x = r.username
    · rw [htarget.2] at hx
      by_cases hremoves : change.Removes
      · have hin := hactor r change rfl htarget.1.symm hx hremoves
        have hother : ¬(db = r.database ∧ r.actor.sub = r.username) :=
          fun h => hl r change rfl h.2.symm
        exact ⟨r.actor.sub, administers_updateUser_other hother hin⟩
      · rw [htarget.1] at hx ⊢
        exact ⟨r.username, administers_updateUser_self hremoves hx⟩
    · exact ⟨x, administers_updateUser_other htarget hx⟩
  · exact ⟨x, administers_of_sameUsers hsame hx⟩

theorem aboutOther_next {l l' : AdminOp} (h : (adminScript app).next l s l') :
    AboutOther l' t := by
  intro r change heq
  cases l with
  | account r' op =>
    obtain ⟨-, ⟨op', hl', -, hmakes, hentitled⟩, -⟩ := h
    have hsame : r = r' ∧ AccountOp.updateUser change = op' := by
      simpa using heq.symm.trans hl'
    rw [← hsame.2] at hmakes
    rw [hsame.1]
    refine hentitled.other ?_
    rw [show r'.action.change = some change from hmakes]
    rfl
  | openUsers => cases heq.symm.trans h
  | usersCursor collected remaining =>
    cases remaining with
    | nil => exact absurd h not_false
    | cons y rest => cases heq.symm.trans h

theorem aboutOther_first {call : AdminCall} {l : AdminOp}
    (hl : (adminProgram app call).next? = some l) : AboutOther l s := by
  intro r change heq
  rcases next?_adminProgram hl with ⟨r', -, hfirst | ⟨op, hfirst, -⟩⟩ | ⟨-, hfirst⟩
  · cases heq.symm.trans hfirst
  · cases heq.symm.trans hfirst
  · cases heq.symm.trans hfirst

/-- The database has an active `super_admin`, and every update to come is about
another than its actor. -/
abbrev Administered (app : App) (db : String) (c : AdminPool) : Prop :=
  Pool.Scripted (adminScript app) (fun s => s.HasAdministrator db) AboutOther c

theorem administered_perform {c : AdminPool} (h : Administered app db c)
    (act : Pool.Act Nat AdminCall) (hact : InOffice db c act) :
    Administered app db (c.perform (adminProgram app) act) := by
  cases act with
  | start i call =>
    exact h.start i (always_plays_adminProgram call) fun l hl => aboutOther_first hl
  | turn i =>
    refine h.turn i fun l hl habout hdoes => ⟨?_, fun _ _ _ _ h' => h', fun l' => aboutOther_next⟩
    refine hasAdministrator_does hdoes habout h.state fun r change heq => ?_
    rw [heq] at hl
    exact hact r change hl

end Steps

/-- While actors act in office, an active `super_admin` is left. -/
theorem administrator_left (app : App) (db : String) (s₀ : AppState)
    (hs₀ : s₀.HasAdministrator db) (acts : AdminActs)
    (hacts : Pool.Meets (adminProgram app) (InOffice db) (adminIdle s₀) acts) :
    ((adminIdle s₀).performs (adminProgram app) acts).state.HasAdministrator db := by
  have hidle : Administered app db (adminIdle s₀) :=
    ⟨hs₀, fun _ => trivial, fun _ _ h => nomatch h⟩
  have hend : Administered app db ((adminIdle s₀).performs (adminProgram app) acts) :=
    hacts.invariant (fun c act h hact => administered_perform h act hact) hidle
  exact hend.state

/-- The actor of a request is an active `super_admin` when it is authenticated. -/
def StartsInOffice (c : AdminPool) : Pool.Act Nat AdminCall → Prop
  | .start _ (.request r) =>
    c.state.isUserRevoked r.actor.sub = false ∧ c.state.Administers r.database r.actor.sub
  | _ => True

def superAdmin (id username : String) : UserDoc where
  id := id
  username := username
  email := username
  role := some "super_admin"
  disabled := some false
  status := some "active"

def twoSuperAdmins : AppState :=
  ⟨fun _ => ⟨[superAdmin "1" "alice", superAdmin "2" "bob"], .empty⟩, [], []⟩

def demotion (actor username : String) : AdminCall :=
  .request ⟨{ sub := actor, role := "super_admin" }, "sentora", username,
    .updateUserRole .viewer 0⟩

theorem twoSuperAdmins_administers {x : String} (h : x = "alice" ∨ x = "bob") :
    twoSuperAdmins.Administers "sentora" x := by
  rcases h with rfl | rfl
  · exact ⟨superAdmin "1" "alice", rfl, rfl, rfl, rfl⟩
  · exact ⟨superAdmin "2" "bob", rfl, rfl, rfl, rfl⟩

/-- The one demotes the other. -/
theorem administrator_left_by_demotion :
    ((adminIdle twoSuperAdmins).performs (adminProgram sampleApp)
      [.start 0 (demotion "alice" "bob"), .turn 0, .turn 0]).state.HasAdministrator
        "sentora" := by
  have halice := twoSuperAdmins_administers (Or.inl rfl)
  refine administrator_left sampleApp "sentora" twoSuperAdmins ⟨"alice", halice⟩ _
    ⟨trivial, fun r change hl => ?_, fun r change hl => ?_, trivial⟩
  · cases hl
  · cases hl
    exact fun _ _ _ => halice

/-- Each demotes the other. -/
theorem no_administrator_left :
    ¬∀ (app : App) (db : String) (s₀ : AppState), s₀.HasAdministrator db → ∀ acts : AdminActs,
      Pool.Meets (adminProgram app) StartsInOffice (adminIdle s₀) acts →
        ((adminIdle s₀).performs (adminProgram app) acts).state.HasAdministrator db := by
  intro hclaim
  have halice := twoSuperAdmins_administers (Or.inl rfl)
  have hbob := twoSuperAdmins_administers (Or.inr rfl)
  obtain ⟨x, d, hd, hrole, -⟩ := hclaim sampleApp "sentora" twoSuperAdmins ⟨"alice", halice⟩
    [.start 0 (demotion "alice" "bob"), .start 1 (demotion "bob" "alice"), .turn 0, .turn 1,
      .turn 0, .turn 1]
    ⟨⟨rfl, halice⟩, ⟨rfl, hbob⟩, trivial, trivial, trivial, trivial, trivial⟩
  have hviewers : ∀ e ∈ [{ superAdmin "1" "alice" with role := some "viewer" },
      { superAdmin "2" "bob" with role := some "viewer" }], e.userRole = .ok .viewer := by
    simp [UserDoc.userRole, UserRole.ofValue, UserRole.value]
  have hviewer := hviewers d (List.mem_of_find?_eq_some hd)
  rw [hrole] at hviewer
  cases hviewer

end Sentora.Auth
