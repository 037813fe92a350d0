import Sentora.Auth.AdminSteps

/-!
# The life cycle of an account

Requests of the user management one after the other: which changes of an
account's status they make, and whether these are changes of `valid_transitions`.

Three endpoints write the status.  `update_user_status` looks at the table,
`delete_user` makes a change that the table has for every status, and
`update_user_disabled` writes `deactivated` or `active` whatever the status was.
-/

namespace Sentora.Auth

open Lib Process

def serveAll (app : App) (calls : List AdminCall) (s : AppState) : AppState :=
  calls.foldl (fun s call => ((adminProgram app call).run s).1) s

section Requests

variable {app : App} {r : Request} {s t : AppState}

theorem steady_inSessions {α : Type} (r : Request) (p : Process CacheState CacheOp α) :
    Steady (SameUsers s) (inSessions r p) := by
  have htrivial : Steady (fun _ => True) p := by
    induction p with
    | ret a => trivial
    | step l u k ih => exact ⟨fun _ _ => trivial, ih⟩
  refine htrivial.zoom (fun _ _ => trivial) fun c t ht _ db x => ?_
  rw [AppState.findUser_setSessions]
  exact ht db x

theorem steady_markRevoked (r : Request) : Steady (SameUsers s) (markRevoked r) :=
  steady_atomic fun _ ht => ht

theorem steady_endAccess (r : Request) (reason : String) (now : Nat) :
    Steady (SameUsers s) (endAccess r reason now) :=
  (steady_inSessions r _).bind fun _ => (steady_inSessions r _).bind fun _ => steady_markRevoked r

theorem sameUsers_after_update {α : Type} {change : Change} {p : Admin α}
    (hp : Steady (SameUsers (s.updateUser r.database r.username change)) p) :
    SameUsers (s.updateUser r.database r.username change)
      ((updateUserInDb r change >>= fun _ => p).run s).1 := by
  rw [run_bind, updateUserInDb, run_write]
  exact hp.run fun _ _ => rfl

/-- A request that leaves the accounts as they are.  One on the flag has met a
guard. -/
def Idle (app : App) (r : Request) (s t : AppState) : Prop :=
  SameUsers s t ∧
    ∀ disabled now u, r.action = .updateUserDisabled disabled now → ¬Passes app r none s u

def Effective (app : App) (r : Request) (s t : AppState) : Prop :=
  ∃ change u, r.action.change = some change ∧ Passes app r none s u ∧
    (∀ status now, r.action = .updateUserStatus status now → status ∈ validTransitions u.status) ∧
    SameUsers (s.updateUser r.database r.username change) t

theorem run_endpoint {α : Type} {g : Guards} {early : Option HttpError}
    {body : User → Admin (Outcome α)} {f : α → AdminReply}
    (hearly : ∀ disabled now, r.action = .updateUserDisabled disabled now → early = none)
    (hbody : ∀ u, Passes app r none s u →
      Idle app r s ((body u).run s).1 ∨ Effective app r s ((body u).run s).1) :
    Idle app r s ((replyOf f (guarded app g r early body)).run s).1 ∨
      Effective app r s ((replyOf f (guarded app g r early body)).run s).1 := by
  rcases run_guarded f s with ⟨heq, hnot⟩ | ⟨u, hpass, heq⟩
  · rw [heq]
    refine Or.inl ⟨fun _ _ => rfl, fun disabled now u haction hpass => hnot u ?_⟩
    exact { hpass with early := hearly disabled now haction }
  · rw [heq]
    exact hbody u { hpass with early := rfl }

theorem effective_of_update {α : Type} {change : Change} {u : User} {p : Admin α}
    (hchange : r.action.change = some change) (hpass : Passes app r none s u)
    (hstatus : ∀ status now, r.action = .updateUserStatus status now →
      status ∈ validTransitions u.status)
    (hp : Steady (SameUsers (s.updateUser r.database r.username change)) p) :
    Effective app r s ((updateUserInDb r change >>= fun _ => p).run s).1 :=
  ⟨change, u, hchange, hpass, hstatus, sameUsers_after_update hp⟩

theorem run_handle (app : App) (r : Request) (s : AppState) :
    Idle app r s ((handle app r).run s).1 ∨ Effective app r s ((handle app r).run s).1 := by
  unfold handle
  cases haction : r.action with
  | updateUserRole role now =>
    have hother : ∀ status now, r.action ≠ .updateUserStatus status now := by
      rw [haction]
      exact fun _ _ => Action.noConfusion
    refine run_endpoint (fun disabled now h => ?_) fun u hpass => Or.inr ?_
    · rw [haction] at h
      cases h
    · refine effective_of_update (by rw [haction]; rfl) hpass
        (fun status now h => absurd h (hother status now)) ?_
      exact (steady_inSessions r _).bind fun _ => (steady_inSessions r _).bind fun _ => trivial
  | updateUserDisabled disabled now =>
    have hother : ∀ status now, r.action ≠ .updateUserStatus status now := by
      rw [haction]
      exact fun _ _ => Action.noConfusion
    refine run_endpoint (fun _ _ _ => rfl) fun u hpass => Or.inr ?_
    refine effective_of_update (by rw [haction]; rfl) hpass
      (fun status now h => absurd h (hother status now)) ?_
    cases disabled with
    | true => exact (steady_endAccess r _ now).bind fun _ => trivial
    | false => exact Steady.bind (steady_atomic fun _ ht => ht) fun _ => trivial
  | updateUserStatus status now =>
    refine run_endpoint (fun _ _ _ => rfl) fun u hpass => ?_
    by_cases htable : status ∉ validTransitions u.status
    · rw [if_pos htable]
      refine Or.inl ⟨fun _ _ => rfl, fun disabled now' u h => ?_⟩
      rw [haction] at h
      cases h
    · rw [if_neg htable]
      refine Or.inr (effective_of_update (by rw [haction]; rfl) hpass (fun status' now' h => ?_) ?_)
      · rw [haction] at h
        cases h
        exact not_not.mp htable
      · cases decide (status ∈ nonActive) with
        | true => exact (steady_endAccess r _ now).bind fun _ => trivial
        | false => exact Steady.bind (steady_atomic fun _ ht => ht) fun _ => trivial
  | deleteUser deletedAt now =>
    have hother : ∀ status now, r.action ≠ .updateUserStatus status now := by
      rw [haction]
      exact fun _ _ => Action.noConfusion
    refine run_endpoint (fun _ _ _ => rfl) fun u hpass => Or.inr ?_
    refine effective_of_update (by rw [haction]; rfl) hpass
      (fun status now h => absurd h (hother status now)) ?_
    exact (steady_endAccess r _ now).bind fun _ => trivial
  | adminRevokeSessions now =>
    have hsteady : Steady (SameUsers s) (adminRevokeSessions r now) :=
      (steady_inSessions r _).bind fun _ => (steady_inSessions r _).bind fun _ => trivial
    have hreply : Steady (SameUsers s) (replyOf (fun _ => .done) (adminRevokeSessions r now)) :=
      hsteady.bind fun _ => trivial
    refine Or.inl ⟨hreply.run fun _ _ => rfl, fun disabled now u h => ?_⟩
    rw [haction] at h
    cases h

theorem run_refreshRevokedUsers (app : App) (s : AppState) :
    SameUsers s ((refreshRevokedUsers app).run s).1 := by
  have hsweep : Steady (SameUsers s) (refreshRevokedUsers app) :=
    ⟨fun _ ht => ht, fun _ => steady_sweep (fun _ _ ht db x => ht db x) [] _⟩
  exact hsweep.run fun _ _ => rfl

end Requests

def UserDoc.Deleted (d : UserDoc) : Prop :=
  d.accountStatus = .ok .deleted ∧ d.disabled = some true

/-- The status is the same, or the table has the change and a deletion disables
the user. -/
def Allowed (d d' : UserDoc) : Prop :=
  d'.accountStatus = d.accountStatus ∨
    ∃ status status', d.accountStatus = .ok status ∧ d'.accountStatus = .ok status' ∧
      status' ∈ validTransitions status ∧ (status' = .deleted → d'.disabled = some true)

/-- Every account is still there, after an allowed change, and deleted if it
was. -/
def Moves (s t : AppState) : Prop :=
  ∀ db x d, s.findUser db x = some d →
    ∃ d', t.findUser db x = some d' ∧ Allowed d d' ∧ (d.Deleted → d'.Deleted)

/-- A request on the flag of a user that it gets through to finds it neither
deleted nor, when it disables it, invited. -/
def HeedsTable (app : App) (s : AppState) (call : AdminCall) : Prop :=
  ∀ r disabled now u, call = .request r → r.action = .updateUserDisabled disabled now →
    r.Authorized → Passes app r none s u →
      u.status ≠ .deleted ∧ (disabled = true → u.status ≠ .invited)

section Table

variable {app : App} {r : Request} {s t : AppState} {d : UserDoc} {u : User}

theorem moves_of_sameUsers (h : SameUsers s t) : Moves s t := by
  intro db x d hd
  refine ⟨d, ?_, Or.inl rfl, id⟩
  rw [h db x]
  exact hd

theorem allowed_of_status {d' : UserDoc} {status : AccountStatus}
    (hd : d.accountStatus = .ok u.status) (hd' : d'.accountStatus = .ok status) :
    Allowed d d' ↔ status = u.status ∨
      status ∈ validTransitions u.status ∧ (status = .deleted → d'.disabled = some true) := by
  unfold Allowed
  rw [hd, hd', Except.ok.injEq]
  refine or_congr_right ⟨?_, fun h => ⟨u.status, status, rfl, rfl, h⟩⟩
  rintro ⟨before, after, hbefore, hafter, h⟩
  rw [Except.ok.inj hbefore, Except.ok.inj hafter]
  exact h

theorem flag_status_iff (status : AccountStatus) (disabled : Bool) :
    (if disabled then .deactivated else .active) = status ∨
        (if disabled then .deactivated else .active) ∈ validTransitions status ↔
      status ≠ .deleted ∧ (disabled = true → status ≠ .invited) := by
  cases status <;> cases disabled <;> decide

theorem deleted_mem_validTransitions {status : AccountStatus} (h : status ≠ .deleted) :
    .deleted ∈ validTransitions status := by
  cases status <;> first | decide | exact absurd rfl h

theorem allowed_apply {change : Change} (hchange : r.action.change = some change)
    (hd : docToUser app.decrypt d = .ok u)
    (htable : ∀ status now, r.action = .updateUserStatus status now →
      status ∈ validTransitions u.status) :
    (Allowed d (change.apply d) ∧ (d.Deleted → (change.apply d).Deleted)) ↔
      ∀ disabled now, r.action = .updateUserDisabled disabled now →
        u.status ≠ .deleted ∧ (disabled = true → u.status ≠ .invited) := by
  have hstatus := accountStatus_of_docToUser hd
  have hdeleted : d.Deleted → u.status = .deleted := by
    intro h
    have heq := hstatus.symm.trans h.1
    exact Except.ok.inj heq
  cases haction : r.action with
  | updateUserRole role now =>
    rw [haction] at hchange
    cases hchange
    exact iff_of_true ⟨Or.inl rfl, id⟩ fun _ _ h => Action.noConfusion h
  | updateUserDisabled disabled now =>
    rw [haction] at hchange
    cases hchange
    have hflag := flag_status_iff u.status disabled
    have hne : (if disabled then AccountStatus.deactivated else .active) ≠ .deleted := by
      cases disabled <;> exact AccountStatus.noConfusion
    rw [allowed_of_status hstatus (accountStatus_status _ _)]
    constructor
    · rintro ⟨hallowed, -⟩ disabled' now' heq
      cases heq
      exact hflag.mp (hallowed.imp_right And.left)
    · intro h
      have hfound := h disabled now rfl
      refine ⟨(hflag.mpr hfound).imp_right fun hmem => ⟨hmem, fun heq => absurd heq hne⟩, ?_⟩
      exact fun hd => absurd (hdeleted hd) hfound.1
  | updateUserStatus status now =>
    rw [haction] at hchange
    cases hchange
    have hmem := htable status now haction
    refine iff_of_true ⟨?_, fun hd => ?_⟩ fun _ _ h => Action.noConfusion h
    · rw [allowed_of_status hstatus (accountStatus_status _ _)]
      refine Or.inr ⟨hmem, fun heq => ?_⟩
      subst heq
      rfl
    · rw [hdeleted hd] at hmem
      cases hmem
  | deleteUser deletedAt now =>
    rw [haction] at hchange
    cases hchange
    refine iff_of_true ⟨?_, fun _ => ⟨accountStatus_deleted deletedAt, rfl⟩⟩ ?_
    · rw [allowed_of_status hstatus (accountStatus_deleted deletedAt)]
      by_cases hu : u.status = .deleted
      · exact Or.inl hu.symm
      · exact Or.inr ⟨deleted_mem_validTransitions hu, fun _ => rfl⟩
    · exact fun _ _ h => Action.noConfusion h
  | adminRevokeSessions now =>
    rw [haction] at hchange
    cases hchange

theorem moves_iff (app : App) (s : AppState) (call : AdminCall) :
    Moves s ((adminProgram app call).run s).1 ↔ HeedsTable app s call := by
  cases call with
  | refreshRevokedUsers =>
    exact iff_of_true (moves_of_sameUsers (run_refreshRevokedUsers app s))
      fun r disabled now u h => AdminCall.noConfusion h
  | request r =>
    by_cases hr : r.Authorized
    · rw [adminProgram_of_authorized hr]
      rcases run_handle app r s with ⟨hsame, hidle⟩ | ⟨change, u, hchange, hpass, htable, hsame⟩
      · refine iff_of_true (moves_of_sameUsers hsame) fun r' disabled now u h haction _ hpass => ?_
        cases h
        exact absurd hpass (hidle disabled now u haction)
      · obtain ⟨d, hd, hdoc⟩ := getUser_ok_some_iff.mp hpass.found
        have happly := allowed_apply hchange hdoc htable
        constructor
        · intro hmoves r' disabled now u' h haction _ hpass'
          cases h
          have hsameUser : u' = u := by
            have heq := hpass'.found.symm.trans hpass.found
            exact Option.some.inj (Except.ok.inj heq)
          rw [hsameUser]
          obtain ⟨d', hd', hallowed⟩ := hmoves _ _ d hd
          rw [hsame, AppState.findUser_updateUser_self, hd] at hd'
          cases hd'
          exact happly.mp hallowed disabled now haction
        · intro hheeds db x e he
          by_cases htarget : db = r.database ∧ x = r.username
          · obtain ⟨rfl, rfl⟩ := htarget
            have heq : e = d := Option.some.inj (he.symm.trans hd)
            refine ⟨change.apply d, ?_, ?_⟩
            · rw [hsame, AppState.findUser_updateUser_self, hd]
              rfl
            · rw [heq]
              exact happly.mpr fun disabled now haction =>
                hheeds r disabled now u rfl haction hr hpass
          · refine ⟨e, ?_, Or.inl rfl, id⟩
            rw [hsame, AppState.findUser_updateUser_other _ htarget]
            exact he
    · obtain ⟨e, heq⟩ := adminProgram_of_not_authorized app hr
      rw [heq]
      refine iff_of_true (moves_of_sameUsers fun _ _ => rfl) fun r' disabled now u h _ hauth => ?_
      cases h
      exact absurd hauth hr

end Table

/-- Every change of a status that takes effect is allowed, and who is deleted
stays so. -/
structure LifeCycle (app : App) (s₀ : AppState) (calls : List AdminCall) : Prop where
  changes : ∀ before call after, calls = before ++ call :: after →
    ∀ db x d, (serveAll app before s₀).findUser db x = some d →
      ∃ d', (serveAll app (before ++ [call]) s₀).findUser db x = some d' ∧ Allowed d d'
  deleted : ∀ before later after, calls = before ++ later ++ after →
    ∀ db x d, (serveAll app before s₀).findUser db x = some d → d.Deleted →
      ∃ d', (serveAll app (before ++ later) s₀).findUser db x = some d' ∧ d'.Deleted

section Runs

variable {app : App} {s₀ : AppState} {calls : List AdminCall}

theorem serveAll_concat (before : List AdminCall) (call : AdminCall) :
    serveAll app (before ++ [call]) s₀ =
      ((adminProgram app call).run (serveAll app before s₀)).1 := by
  unfold serveAll
  rw [List.foldl_append]
  rfl

theorem deleted_of_moves (later : List AdminCall) {before : List AdminCall}
    (h : ∀ mid call after, later = mid ++ call :: after →
      Moves (serveAll app (before ++ mid) s₀) (serveAll app (before ++ mid ++ [call]) s₀))
    {db x : String} {d : UserDoc} (hd : (serveAll app before s₀).findUser db x = some d)
    (hdeleted : d.Deleted) :
    ∃ d', (serveAll app (before ++ later) s₀).findUser db x = some d' ∧ d'.Deleted := by
  induction later generalizing before d with
  | nil =>
    rw [List.append_nil]
    exact ⟨d, hd, hdeleted⟩
  | cons call later ih =>
    have hfirst := h [] call later rfl
    rw [List.append_nil] at hfirst
    obtain ⟨d', hd', -, hdeleted'⟩ := hfirst db x d hd
    have hlater : ∀ mid call' after, later = mid ++ call' :: after →
        Moves (serveAll app (before ++ [call] ++ mid) s₀)
          (serveAll app (before ++ [call] ++ mid ++ [call']) s₀) := by
      intro mid call' after heq
      have hmid := h (call :: mid) call' after (by rw [heq]; rfl)
      simpa using hmid
    have hrest := ih hlater hd' (hdeleted' hdeleted)
    rw [List.append_assoc] at hrest
    exact hrest

end Runs

/-- In a run of requests the accounts go through one life cycle exactly if no
request on the flag gets through to a deleted user, or disables an invited one. -/
theorem lifeCycle_iff (app : App) (s₀ : AppState) (calls : List AdminCall) :
    LifeCycle app s₀ calls ↔ ∀ before call after, calls = before ++ call :: after →
      HeedsTable app (serveAll app before s₀) call := by
  constructor
  · intro h before call after heq
    rw [← moves_iff, ← serveAll_concat]
    intro db x d hd
    obtain ⟨d', hd', hallowed⟩ := h.changes before call after heq db x d hd
    refine ⟨d', hd', hallowed, fun hdeleted => ?_⟩
    have hsplit : calls = before ++ [call] ++ after := by rw [heq, List.append_assoc]; rfl
    obtain ⟨d'', hd'', hdeleted''⟩ := h.deleted before [call] after hsplit db x d hd hdeleted
    rw [Option.some.inj (hd'.symm.trans hd'')]
    exact hdeleted''
  · intro h
    have hmoves : ∀ before call after, calls = before ++ call :: after →
        Moves (serveAll app before s₀) (serveAll app (before ++ [call]) s₀) := by
      intro before call after heq
      rw [serveAll_concat, moves_iff]
      exact h before call after heq
    constructor
    · intro before call after heq db x d hd
      obtain ⟨d', hd', hallowed, -⟩ := hmoves before call after heq db x d hd
      exact ⟨d', hd', hallowed⟩
    · intro before later after heq db x d hd hdeleted
      refine deleted_of_moves later (fun mid call rest hlater => ?_) hd hdeleted
      refine hmoves (before ++ mid) call (rest ++ after) ?_
      rw [heq, hlater]
      simp

def deletedUser : UserDoc where
  id := "1"
  username := "user"
  email := "user@example.org"
  disabled := some true
  status := some "deleted"

def stateOf (users : List UserDoc) : AppState := ⟨fun _ => ⟨users, .empty⟩, [], []⟩

def enableUser : AdminCall :=
  .request ⟨{ sub := "root", role := "admin" }, "sentora", "user", .updateUserDisabled false 0⟩

/-- Enabling the account of a deleted user makes it active. -/
theorem enable_revives_deleted :
    ¬∀ (app : App) (s₀ : AppState) (calls : List AdminCall), LifeCycle app s₀ calls := by
  intro hclaim
  have hlife := hclaim sampleApp (stateOf [deletedUser]) [enableUser]
  obtain ⟨d, hd, hdeleted⟩ :=
    hlife.deleted [] [enableUser] [] rfl "sentora" "user" deletedUser rfl ⟨rfl, rfl⟩
  have hrevived : (serveAll sampleApp [enableUser] (stateOf [deletedUser])).findUser "sentora"
      "user" = some { deletedUser with disabled := some false, status := some "active" } := rfl
  rw [← Option.some.inj (hrevived.symm.trans hd)] at hdeleted
  exact absurd hdeleted.2 (by decide)

end Sentora.Auth
