import Sentora.Auth.AdminSteps

/-!
# The cache of revoked users

`utils/user_revocation.py`: whether a user who is blocked in a database stays in
the set that requests are checked against, and whether operations on users of the
same name in other databases leave him alone there.

The set holds bare names.  A refresh reads the users of the default database one
after the other and replaces the set by the names it found blocked.
-/

namespace Sentora.Auth

open Lib Process

/-- The look-up of the user succeeds. -/
def Readable (app : App) (db x : String) (s : AppState) : Prop :=
  ∃ d u, s.findUser db x = some d ∧ docToUser app.decrypt d = .ok u

section Readable

variable {app : App} {db x : String} {s t : AppState}

theorem docToUser_apply {d : UserDoc} {u : User} (change : Change)
    (h : docToUser app.decrypt d = .ok u) :
    ∃ u', docToUser app.decrypt (change.apply d) = .ok u' := by
  obtain ⟨status, secret, role, hstatus, hsecret, hrole, -⟩ := docToUser_ok_iff.mp h
  cases change with
  | role r =>
    have hrole' : ((Change.role r).apply d).userRole = .ok r :=
      userRole_ok_iff.mpr (UserRole.ofValue_value r)
    exact ⟨_, docToUser_ok_iff.mpr ⟨status, secret, r, hstatus, hsecret, hrole', rfl⟩⟩
  | status disabled st =>
    exact ⟨_, docToUser_ok_iff.mpr
      ⟨st, secret, role, accountStatus_status disabled st, hsecret, hrole, rfl⟩⟩
  | deleted now =>
    exact ⟨_, docToUser_ok_iff.mpr
      ⟨.deleted, secret, role, accountStatus_deleted now, hsecret, hrole, rfl⟩⟩

/-- An account that can be read can be read after any step. -/
theorem readable_does {l : AdminOp} (hdoes : (adminScript app).does l s t)
    (h : Readable app db x s) : Readable app db x t := by
  obtain ⟨d, u, hd, hu⟩ := h
  rcases update_or_sameUsers hdoes with ⟨r, change, -, rfl⟩ | hsame
  · by_cases htarget : db = r.database ∧ x = r.username
    · obtain ⟨rfl, rfl⟩ := htarget
      obtain ⟨u', hu'⟩ := docToUser_apply change hu
      refine ⟨change.apply d, u', ?_, hu'⟩
      rw [AppState.findUser_updateUser_self, hd]
      rfl
    · refine ⟨d, u, ?_, hu⟩
      rw [AppState.findUser_updateUser_other _ htarget]
      exact hd
  · exact ⟨d, u, (hsame db x).trans hd, hu⟩

/-- What holds at a step of a request: it is one of its steps, and after the
look-up the account can be read. -/
def Checked (app : App) (l : AdminOp) (s : AppState) : Prop :=
  ∀ r op, l = .account r op → op ≠ .findUser → r.Makes op ∧
    (r.action.change.isSome = true → Readable app r.database r.username s)

theorem checked_step {l : AdminOp} (hl : Checked app l s) (hdoes : (adminScript app).does l s t) :
    (∀ l', Checked app l' s → Checked app l' t) ∧
      ∀ l', (adminScript app).next l s l' → Checked app l' t := by
  refine ⟨fun l' h r op heq hop => ?_, fun l' hnext r op heq hop => ?_⟩
  · exact (h r op heq hop).imp_right fun hread hguarded => readable_does hdoes (hread hguarded)
  · cases l with
    | account r' op' =>
      obtain ⟨-, ⟨op'', hop'', -, hmakes, -⟩, hadmitted⟩ := hnext
      cases heq.symm.trans hop''
      refine ⟨hmakes, fun hguarded => readable_does hdoes ?_⟩
      by_cases hfind : op' = .findUser
      · obtain ⟨d, u, hd, hu, -⟩ := hadmitted hfind
        exact ⟨d, u, hd, hu⟩
      · exact (hl r op' rfl hfind).2 hguarded
    | openUsers =>
      cases heq.symm.trans hnext
    | usersCursor collected remaining =>
      cases remaining with
      | nil => exact absurd hnext id
      | cons x rest => cases heq.symm.trans hnext

end Readable

section Runs

variable {app : App} {s₀ : AppState} {acts : AdminActs}

theorem scripted_performs (app : App) (s₀ : AppState) (acts : AdminActs) :
    Pool.Scripted (adminScript app) (fun _ => True) (Checked app)
      ((adminIdle s₀).performs (adminProgram app) acts) := by
  have hidle : Pool.Scripted (adminScript app) (fun _ => True) (Checked app) (adminIdle s₀) :=
    ⟨trivial, fun _ => trivial, fun _ _ h => nomatch h⟩
  refine hidle.performs (fun l s t _ hl hdoes => ⟨trivial, checked_step hl hdoes⟩) ?_
  intro i call _
  refine ⟨always_plays_adminProgram call, fun s l _ hl r op heq hop => ?_⟩
  rcases next?_adminProgram hl with ⟨r', -, hfirst | ⟨op', hfirst, hnone⟩⟩ | ⟨-, hfirst⟩
  · cases heq.symm.trans hfirst
    exact absurd rfl hop
  · cases heq.symm.trans hfirst
    refine ⟨trivial, fun hguarded => ?_⟩
    rw [hnone] at hguarded
    cases hguarded
  · cases heq.symm.trans hfirst

end Runs

def Request.SetsStatus (r : Request) : Prop := (r.action.change.bind Change.marks).isSome = true

def Request.About (r : Request) (db x : String) : Prop := r.database = db ∧ r.username = x

def Elsewhere (app : App) (db x : String) (s : AppState) : Prop :=
  ∀ db', db' ≠ db → ¬Readable app db' x s

/-- In case of `K` the user is in the set, and a refresh would find him. -/
structure UserCached (app : App) (K : Prop) (db x : String) (s : AppState) : Prop where
  elsewhere : Elsewhere app db x s
  cached : K → x ∈ s.revokedUsernames ∧ s.collects app x = true

/-- The step cannot change this: it is of no request that sets the status of the
user, of none past the look-up of a user of the same name elsewhere, and, in case
of `K`, of no refresh that has passed the user without collecting him. -/
def Harmless (K : Prop) (db x : String) : AdminOp → Prop
  | .account r op =>
    (op ≠ .findUser → r.Makes op) ∧ (r.About db x → ¬r.SetsStatus) ∧
      (r.username = x → r.database ≠ db → r.action.change.isSome = true → op = .findUser)
  | .openUsers => True
  | .usersCursor collected remaining => K → x ∈ collected ∨ x ∈ remaining

section Cached

variable {app : App} {K : Prop} {db x : String} {s t : AppState}

theorem isSome_of_marks {r : Request} {b : Bool}
    (h : r.action.change.bind Change.marks = some b) :
    r.action.change.isSome = true ∧ r.SetsStatus := by
  unfold Request.SetsStatus
  rw [h]
  refine ⟨?_, rfl⟩
  cases hchange : r.action.change with
  | none =>
    rw [hchange] at h
    cases h
  | some change => rfl

theorem marks_other {r : Request} {op : AccountOp} {b : Bool} (hl : Harmless K db x (.account r op))
    (hop : op ≠ .findUser) (hmarks : r.action.change.bind Change.marks = some b) :
    r.username ≠ x := by
  intro hname
  obtain ⟨hsome, hsets⟩ := isSome_of_marks hmarks
  by_cases hdb : r.database = db
  · exact hl.2.1 ⟨hdb, hname⟩ hsets
  · exact hop (hl.2.2 hname hdb hsome)

theorem harmless_update {r : Request} {change : Change}
    (hl : Harmless K db x (.account r (.updateUser change))) :
    (∀ db', db' ≠ db → (s.updateUser r.database r.username change).findUser db' x =
        s.findUser db' x) ∧
      ∀ db', (s.updateUser r.database r.username change).blocked db' x = s.blocked db' x := by
  have hmakes : r.action.change = some change := hl.1 AccountOp.noConfusion
  have helse : ∀ db', db' ≠ db → ¬(db' = r.database ∧ x = r.username) := by
    rintro db' hdb ⟨rfl, rfl⟩
    have hfind := hl.2.2 rfl hdb (by rw [hmakes]; rfl)
    cases hfind
  refine ⟨fun db' hdb => AppState.findUser_updateUser_other change (helse db' hdb), fun db' => ?_⟩
  unfold AppState.blocked
  by_cases htarget : db' = r.database ∧ x = r.username
  · obtain ⟨rfl, rfl⟩ := htarget
    have hdb : r.database = db := by
      by_contra hne
      exact helse _ hne ⟨rfl, rfl⟩
    have hsets := hl.2.1 ⟨hdb, rfl⟩
    unfold Request.SetsStatus at hsets
    rw [hmakes] at hsets
    cases change with
    | role role =>
      rw [AppState.findUser_updateUser_self, Option.any_map]
      rfl
    | status disabled status => exact absurd rfl hsets
    | deleted now => exact absurd rfl hsets
  · rw [AppState.findUser_updateUser_other change htarget]

theorem collects_eq (h : s.blocked app.mongoDb x = t.blocked app.mongoDb x) :
    s.collects app x = t.collects app x := by
  unfold AppState.collects
  rw [h]

theorem UserCached.of_sameUsers (h : UserCached app K db x s) (hsame : SameUsers s t)
    (hnames : K → x ∈ s.revokedUsernames → x ∈ t.revokedUsernames) : UserCached app K db x t := by
  refine ⟨fun db' hdb hread => h.elsewhere db' hdb ?_, fun hK => ?_⟩
  · obtain ⟨d, u, hd, hu⟩ := hread
    exact ⟨d, u, (hsame db' x).symm.trans hd, hu⟩
  · obtain ⟨hmem, hcollects⟩ := h.cached hK
    refine ⟨hnames hK hmem, ?_⟩
    rw [← hcollects]
    apply collects_eq
    unfold AppState.blocked
    rw [hsame]

theorem userCached_does {l : AdminOp} (h : UserCached app K db x s) (hl : Harmless K db x l)
    (hdoes : (adminScript app).does l s t) : UserCached app K db x t := by
  cases l with
  | account r op =>
    cases op with
    | findUser =>
      rw [show t = s from hdoes]
      exact h
    | updateUser change =>
      obtain ⟨hfind, hblocked⟩ := harmless_update (s := s) hl
      rw [show t = s.updateUser r.database r.username change from hdoes]
      refine ⟨fun db' hdb hread => h.elsewhere db' hdb ?_, fun hK => ?_⟩
      · obtain ⟨d, u, hd, hu⟩ := hread
        rw [hfind db' hdb] at hd
        exact ⟨d, u, hd, hu⟩
      · obtain ⟨hmem, hcollects⟩ := h.cached hK
        exact ⟨hmem, (collects_eq (hblocked _)).trans hcollects⟩
    | sessions op =>
      obtain ⟨c, rfl⟩ : ∃ c, t = s.setSessions r.database c := hdoes
      exact h.of_sameUsers (fun _ _ => AppState.findUser_setSessions c) fun _ hmem => hmem
    | markRevoked =>
      rw [show t = s.markUserRevoked r.username from hdoes]
      exact h.of_sameUsers (fun _ _ => rfl) fun _ hmem => List.mem_append_left _ hmem
    | markRestored =>
      rw [show t = s.markUserRestored r.username from hdoes]
      have hname := marks_other hl AccountOp.noConfusion (hl.1 AccountOp.noConfusion)
      refine h.of_sameUsers (fun _ _ => rfl) fun _ hmem => List.mem_filter.mpr ⟨hmem, ?_⟩
      exact decide_eq_true fun heq => hname heq.symm
  | openUsers =>
    rw [show t = s from hdoes]
    exact h
  | usersCursor collected remaining =>
    cases remaining with
    | nil =>
      rw [show t = { s with revokedUsernames := collected } from hdoes]
      exact h.of_sameUsers (fun _ _ => rfl) fun hK _ => (hl hK).resolve_right List.not_mem_nil
    | cons y rest =>
      rw [show t = s from hdoes]
      exact h

theorem mem_names_of_collects (h : s.collects app x = true) :
    x ∈ (s.databases app.mongoDb).users.map UserDoc.username := by
  unfold AppState.collects AppState.blocked at h
  rw [Bool.and_eq_true, Option.any_eq_true] at h
  obtain ⟨⟨d, hd, -⟩, -⟩ := h
  exact List.mem_map.mpr ⟨d, List.mem_of_find?_eq_some hd, findDoc_username hd⟩

theorem harmless_next {l l' : AdminOp} (h : UserCached app K db x s) (hl : Harmless K db x l)
    (hnext : (adminScript app).next l s l') : Harmless K db x l' := by
  cases l with
  | account r op =>
    obtain ⟨-, ⟨op', rfl, hop', hmakes, -⟩, hadmitted⟩ := hnext
    refine ⟨fun _ => hmakes, hl.2.1, fun hname hdb hguarded => ?_⟩
    obtain ⟨d, u, hd, hu, -⟩ := hadmitted (hl.2.2 hname hdb hguarded)
    rw [hname] at hd
    exact absurd ⟨d, u, hd, hu⟩ (h.elsewhere r.database hdb)
  | openUsers =>
    rw [show l' = _ from hnext]
    exact fun hK => Or.inr (mem_names_of_collects (h.cached hK).2)
  | usersCursor collected remaining =>
    cases remaining with
    | nil => exact absurd hnext id
    | cons y rest =>
      rw [show l' = _ from hnext]
      intro hK
      have hcollects := (h.cached hK).2
      rcases hl hK with hmem | hmem
      · refine Or.inl ?_
        split
        · exact List.mem_append_left _ hmem
        · exact hmem
      · rcases List.mem_cons.mp hmem with rfl | hmem
        · rw [if_pos hcollects]
          exact Or.inl (List.mem_append_right _ (List.mem_singleton.mpr rfl))
        · exact Or.inr hmem

end Cached

section Refreshes

variable {app : App} {x : String} {c : AdminPool}

theorem always_cursor (app : App) (call : AdminCall) :
    Always (fun p => ∀ collected remaining, p.next? = some (.usersCursor collected remaining) →
      p = refreshUsersFrom app collected remaining) (adminProgram app call) := by
  cases call with
  | request r =>
    refine (always_account app r).mono fun p hp collected remaining hl => ?_
    obtain ⟨op, hop⟩ := hp _ hl
    cases hop
  | refreshRevokedUsers =>
    refine ⟨fun collected remaining hl => (nomatch hl), fun s => ?_⟩
    refine always_sweep (fun _ _ hl => (nomatch hl)) (fun collected remaining => ?_) _ _
    intro collected' remaining' hl
    rw [sweep_next?] at hl
    cases hl
    rfl

theorem dropped_of_cursor {j : Nat} {collected remaining : List String}
    (hj : c.procs j = refreshUsersFrom app collected remaining) (hcollected : x ∉ collected)
    (hremaining : c.state.collects app x = true → x ∉ remaining) :
    ((c.performs (adminProgram app)
      (List.replicate (remaining.length + 1) (.turn j))).state.isUserRevoked x) = false := by
  obtain ⟨collected', hdropped, hstate⟩ :=
    Pool.performs_sweep (adminProgram app) hj hcollected hremaining
  rw [hstate]
  exact Bool.eq_false_iff.mpr fun h => hdropped (List.contains_iff_mem.mp h)

end Refreshes

/-- A `super_admin` of another name disables or enables the user. -/
def toggleUser (db x : String) (disabled : Bool) : Request where
  actor := { sub := if x = "root" then "admin" else "root", role := UserRole.superAdmin.value }
  database := db
  username := x
  action := .updateUserDisabled disabled 0

section Toggle

variable {app : App} {db x : String} {s : AppState} {c : AdminPool}

theorem passes_toggleUser (disabled : Bool) (h : Readable app db x s) :
    ∃ u, Passes app (toggleUser db x disabled) none s u := by
  obtain ⟨d, u, hd, hu⟩ := h
  refine ⟨u, rfl, ?_, getUser_ok_some_iff.mpr ⟨d, hd, hu⟩, fun _ => rfl⟩
  show x ≠ if x = "root" then "admin" else "root"
  by_cases hx : x = "root"
  · rw [if_pos hx, hx]
    decide
  · rw [if_neg hx]
    exact hx

/-- Alone the request puts the name into the set, or takes it out. -/
theorem run_toggleUser (disabled : Bool) (h : Readable app db x s) :
    ((adminProgram app (.request (toggleUser db x disabled))).run s).1.isUserRevoked x =
      disabled := by
  rw [adminProgram_of_authorized (Or.inr rfl)]
  show ((replyOf .user (updateUserDisabled app (toggleUser db x disabled) disabled 0)).run
    s).1.isUserRevoked x = disabled
  obtain ⟨u, hpass⟩ := passes_toggleUser disabled h
  rcases run_guarded AdminReply.user s with ⟨-, hnot⟩ | ⟨v, -, heq⟩
  · exact absurd hpass (hnot u)
  · unfold updateUserDisabled
    rw [heq]
    cases disabled with
    | true =>
      simp only [run_bind, endAccess, if_true]
      refine List.contains_iff_mem.mpr (List.mem_append_right _ ?_)
      exact List.mem_singleton.mpr rfl
    | false =>
      simp only [run_bind, Bool.false_eq_true, if_false]
      refine Bool.eq_false_iff.mpr fun hmem => ?_
      obtain ⟨-, hne⟩ := List.mem_filter.mp (List.contains_iff_mem.mp hmem)
      exact of_decide_eq_true hne rfl

end Toggle

/-- No call that starts sets the status of the user. -/
def QuietAbout (db x : String) (acts : AdminActs) : Prop :=
  ∀ j r, .start j (.request r) ∈ acts → r.About db x → ¬r.SetsStatus

/-- Once the operation of a pool's place has returned, the user stays in the set
if he is blocked, and no operation on a user of the same name in another database
ever changes whether he is in it. -/
structure RevokedExactly (app : App) (s₀ : AppState) (before : AdminActs) (i : Nat)
    (db x : String) : Prop where
  stays : ∀ after, QuietAbout db x after →
    let c := (adminIdle s₀).performs (adminProgram app) before
    c.state.blocked db x = true →
      ((c.turn i).performs (adminProgram app) after).state.isUserRevoked x = true
  apart : ∀ after, QuietAbout db x after →
    ∀ pre j post, before ++ .turn i :: after = pre ++ .turn j :: post →
      let c := (adminIdle s₀).performs (adminProgram app) pre
      ∀ r op, (c.procs j).next? = some (.account r op) → r.username = x → r.database ≠ db →
        (c.turn j).state.isUserRevoked x = c.state.isUserRevoked x

/-- No other database has an account of the name that can be read, and if the
user is blocked, the operation ends in a mark, a refresh would find him, and none
in flight has passed him. -/
structure MarkedForGood (app : App) (op : AccountOp) (c : AdminPool) (db x : String) : Prop where
  elsewhere : Elsewhere app db x c.state
  marked : c.state.blocked db x = true → op = .markRevoked ∧ c.state.collects app x = true ∧
    ∀ j collected remaining, (c.procs j).next? = some (.usersCursor collected remaining) →
      x ∈ collected ∨ x ∈ remaining

section Exact

variable {app : App} {s₀ : AppState} {before : AdminActs} {i : Nat} {r : Request} {op : AccountOp}
variable {c : AdminPool} {db x : String}

theorem next?_turn_mark (hplays : (c.procs i).Always (Plays (adminScript app)))
    (hl : (c.procs i).next? = some (.account r op)) (hmark : op.isMark = true) :
    ((c.turn i).procs i).next? = none := by
  cases hnext : ((c.turn i).procs i).next? with
  | none => rfl
  | some l =>
    obtain ⟨hnot, -⟩ := Pool.next_of_plays hplays.here hl hnext
    rw [hmark] at hnot
    cases hnot

theorem sameUsers_turn_mark (hplays : (c.procs i).Always (Plays (adminScript app)))
    (hl : (c.procs i).next? = some (.account r op)) (hmark : op.isMark = true) :
    SameUsers c.state (c.turn i).state := by
  rcases update_or_sameUsers (Pool.does_of_plays hplays.here hl) with ⟨r', change, heq, -⟩ | hsame
  · cases heq
    cases hmark
  · exact hsame

theorem scripted_after
    (hc : Pool.Scripted (adminScript app) (fun _ => True) (Checked app) c)
    (hl : (c.procs i).next? = some (.account r op)) (hmark : op.isMark = true)
    (hname : r.username = x)
    (hquiet : ∀ j r' op', j ≠ i → (c.procs j).next? = some (.account r' op') → r'.About db x →
      ¬r'.SetsStatus)
    (h : MarkedForGood app op c db x) :
    Pool.Scripted (adminScript app) (UserCached app (c.state.blocked db x = true) db x)
      (fun l _ => Harmless (c.state.blocked db x = true) db x l) (c.turn i) := by
  have hsame := sameUsers_turn_mark (hc.plays i) hl hmark
  refine ⟨⟨fun db' hdb hread => h.elsewhere db' hdb ?_, fun hK => ?_⟩,
    Pool.turn_always hc.plays i, fun j l hj => ?_⟩
  · obtain ⟨d, u, hd, hu⟩ := hread
    exact ⟨d, u, (hsame db' x).symm.trans hd, hu⟩
  · obtain ⟨rfl, hcollects, -⟩ := h.marked hK
    rw [show (c.turn i).state = c.state.markUserRevoked r.username from
      Pool.does_of_plays (hc.plays i).here hl, hname]
    exact ⟨List.mem_append_right _ (List.mem_singleton.mpr rfl), hcollects⟩
  · by_cases hji : j = i
    · subst hji
      rw [next?_turn_mark (hc.plays j) hl hmark] at hj
      cases hj
    · rw [Pool.turn_procs_of_ne hji] at hj
      cases l with
      | account r' op' =>
        have hchecked := hc.labels j _ hj r' op' rfl
        refine ⟨fun hop' => (hchecked hop').1, hquiet j r' op' hji hj, ?_⟩
        intro hname' hdb hguarded
        by_contra hop'
        have hread := (hchecked hop').2 hguarded
        rw [hname'] at hread
        exact h.elsewhere _ hdb hread
      | openUsers => trivial
      | usersCursor collected remaining => exact fun hK => (h.marked hK).2.2 j _ _ hj

theorem harmless_first {K : Prop} {call : AdminCall} {l : AdminOp}
    (hcall : ∀ r, call = .request r → r.About db x → ¬r.SetsStatus)
    (hl : (adminProgram app call).next? = some l) : Harmless K db x l := by
  rcases next?_adminProgram hl with ⟨r, heq, rfl | ⟨op, rfl, hnone⟩⟩ | ⟨-, rfl⟩
  · exact ⟨fun h => absurd rfl h, hcall r heq, fun _ _ _ => rfl⟩
  · refine ⟨fun _ => trivial, hcall r heq, fun _ _ hguarded => ?_⟩
    rw [hnone] at hguarded
    cases hguarded
  · trivial

theorem cached_performs {K : Prop} {after : AdminActs}
    (hc : Pool.Scripted (adminScript app) (UserCached app K db x)
      (fun l _ => Harmless K db x l) c) (hafter : QuietAbout db x after) :
    UserCached app K db x (c.performs (adminProgram app) after).state := by
  refine (hc.performs (fun l s t hs hl hdoes => ?_) fun j call hmem => ?_).state
  · exact ⟨userCached_does hs hl hdoes, fun _ h => h, fun l' => harmless_next hs hl⟩
  · refine ⟨always_plays_adminProgram call, fun s l _ hl => harmless_first (fun r hr => ?_) hl⟩
    rw [hr] at hmem
    exact hafter j r hmem

theorem readable_performs (acts : AdminActs)
    (hplays : ∀ j, (c.procs j).Always (Plays (adminScript app))) (h : Readable app db x c.state) :
    Readable app db x (c.performs (adminProgram app) acts).state := by
  have hc : Pool.Scripted (adminScript app) (Readable app db x) (fun _ _ => True) c :=
    ⟨h, hplays, fun _ _ _ => trivial⟩
  refine (hc.performs (fun l s t hs _ hdoes => ?_) fun j call _ => ?_).state
  · exact ⟨readable_does hdoes hs, fun _ _ => trivial, fun _ _ => trivial⟩
  · exact ⟨always_plays_adminProgram call, fun _ _ _ _ => trivial⟩

theorem unchanged_of_elsewhere {x : String} {j : Nat}
    (hc : Pool.Scripted (adminScript app) (fun _ => True) (Checked app) c)
    (hl : (c.procs j).next? = some (.account r op)) (hname : r.username = x)
    (hunread : ¬Readable app r.database x c.state) :
    (c.turn j).state.isUserRevoked x = c.state.isUserRevoked x := by
  have hdoes := Pool.does_of_plays (hc.plays j).here hl
  have hchecked := hc.labels j _ hl r op rfl
  rw [hname] at hchecked
  have hunguarded : op ≠ .findUser → r.action.change = none := by
    intro hop
    by_contra hsome
    exact hunread ((hchecked hop).2 (Option.isSome_iff_ne_none.mpr hsome))
  cases op with
  | findUser => rw [show (c.turn j).state = c.state from hdoes]
  | updateUser change =>
    have hmakes := (hchecked AccountOp.noConfusion).1
    rw [show r.action.change = some change from hmakes] at hunguarded
    cases hunguarded AccountOp.noConfusion
  | sessions op =>
    obtain ⟨t, ht⟩ : ∃ t, (c.turn j).state = c.state.setSessions r.database t := hdoes
    rw [ht]
    rfl
  | markRevoked =>
    have hmakes := (hchecked AccountOp.noConfusion).1
    rw [Request.Makes, hunguarded AccountOp.noConfusion] at hmakes
    cases hmakes
  | markRestored =>
    have hmakes := (hchecked AccountOp.noConfusion).1
    rw [Request.Makes, hunguarded AccountOp.noConfusion] at hmakes
    cases hmakes

theorem isUserRevoked_alone (app : App) (x : String) (i : Nat) (c : AdminPool)
    (h : ∀ n, let c' := c.performs (adminProgram app) (List.replicate n (.turn i))
      (c'.turn i).state.isUserRevoked x = c'.state.isUserRevoked x) (n : Nat) :
    (c.performs (adminProgram app) (List.replicate n (.turn i))).state.isUserRevoked x =
      c.state.isUserRevoked x := by
  induction n with
  | zero => rfl
  | succ n ih =>
    rw [List.replicate_succ', Pool.performs_append, ← ih]
    exact h n

/-- A request that toggles the name goes on alone to the step that changes the
set. -/
theorem exists_toggle (i : Nat)
    (hread : Readable app db x c.state) :
    ∃ r n op,
      let c' := (c.start i (adminProgram app (.request r))).performs (adminProgram app)
        (List.replicate n (.turn i))
      r.About db x ∧ (c'.procs i).next? = some (.account r op) ∧
        (c'.turn i).state.isUserRevoked x ≠ c'.state.isUserRevoked x := by
  by_contra hnone
  obtain ⟨r, hr⟩ : ∃ r, r = toggleUser db x (!c.state.isUserRevoked x) := ⟨_, rfl⟩
  have hproc : (c.start i (adminProgram app (.request r))).procs i =
      adminProgram app (.request r) := Function.update_self ..
  have hsame := isUserRevoked_alone app x i (c.start i (adminProgram app (.request r))) <| by
    intro n
    dsimp only
    cases hl : (((c.start i (adminProgram app (.request r))).performs (adminProgram app)
        (List.replicate n (.turn i))).procs i).next? with
    | none => rw [Pool.turn_of_next?_none hl]
    | some l =>
      have halways := always_account app r
      rw [← hproc] at halways
      obtain ⟨op, rfl⟩ := (Pool.alone_always halways n).here l hl
      by_contra hchanged
      exact hnone ⟨r, n, op, by rw [hr]; exact ⟨rfl, rfl⟩, hl, hchanged⟩
  obtain ⟨n, hn⟩ := Pool.performs_alone (adminProgram app) i
    (c.start i (adminProgram app (.request r)))
  have hend := hsame n
  rw [hn, hproc, hr] at hend
  have htoggled := run_toggleUser (!c.state.isUserRevoked x) hread
  have hself : (!c.state.isUserRevoked x) = c.state.isUserRevoked x := htoggled.symm.trans hend
  simp at hself

theorem elsewhere_of_apart (h : RevokedExactly app s₀ before i db x) :
    Elsewhere app db x (((adminIdle s₀).performs (adminProgram app) before).turn i).state := by
  intro db' hdb hread
  obtain ⟨r, n, op, habout, hl, hchanged⟩ := exists_toggle i hread
  have hsplit : before ++ .turn i :: (.start i (.request r) :: List.replicate (n + 1) (.turn i)) =
      (before ++ .turn i :: .start i (.request r) :: List.replicate n (.turn i)) ++
        .turn i :: ([] : AdminActs) := by
    rw [List.replicate_succ']
    simp
  have hquiet : QuietAbout db x (.start i (.request r) :: List.replicate (n + 1) (.turn i)) := by
    intro j r' hmem habout'
    rcases List.mem_cons.mp hmem with heq | hmem
    · cases heq
      exact absurd (habout.1.symm.trans habout'.1) hdb
    · cases List.eq_of_mem_replicate hmem
  have hapart := h.apart _ hquiet _ i [] hsplit
  rw [Pool.performs_append] at hapart
  refine hchanged (hapart r op hl habout.2 ?_)
  rw [habout.1]
  exact hdb

theorem dropped_of_refresh {x : String} (i : Nat)
    (h : c.state.collects app x ≠ true) :
    ∃ n, ((c.performs (adminProgram app)
      (.start i .refreshRevokedUsers :: List.replicate n (.turn i))).state.isUserRevoked x) =
        false := by
  have hproc : (c.start i (adminProgram app .refreshRevokedUsers)).procs i =
      refreshRevokedUsers app := Function.update_self ..
  have hturn := Pool.turn_of_step hproc
  have hopened : ((c.start i (adminProgram app .refreshRevokedUsers)).turn i).procs i =
      refreshUsersFrom app [] ((c.state.databases app.mongoDb).users.map UserDoc.username) := by
    rw [hturn]
    exact Function.update_self ..
  have hnot : ((c.start i (adminProgram app .refreshRevokedUsers)).turn i).state.collects app x =
      true → x ∉ (c.state.databases app.mongoDb).users.map UserDoc.username := by
    rw [hturn]
    exact fun hfound => absurd hfound h
  exact ⟨_ + 1 + 1, dropped_of_cursor hopened List.not_mem_nil hnot⟩

theorem collects_of_sameUsers {x : String} {s t : AppState} (h : SameUsers s t) :
    t.collects app x = s.collects app x := by
  apply collects_eq
  unfold AppState.blocked
  rw [h]

theorem markedForGood_of_revokedExactly
    (hl : (((adminIdle s₀).performs (adminProgram app) before).procs i).next? =
      some (.account r op)) (hmark : op.isMark = true) (hname : r.username = x)
    (h : RevokedExactly app s₀ before i db x) :
    MarkedForGood app op ((adminIdle s₀).performs (adminProgram app) before) db x := by
  have hc := scripted_performs app s₀ before
  have hsame := sameUsers_turn_mark (hc.plays i) hl hmark
  refine ⟨fun db' hdb hread => ?_, fun hblocked => ⟨?_, ?_, fun j collected remaining hj => ?_⟩⟩
  · obtain ⟨d, u, hd, hu⟩ := hread
    exact elsewhere_of_apart h db' hdb ⟨d, u, (hsame db' x).trans hd, hu⟩
  · have hstays := h.stays [] (fun _ _ hmem => absurd hmem List.not_mem_nil) hblocked
    have hdoes := Pool.does_of_plays (hc.plays i).here hl
    cases op with
    | markRevoked => rfl
    | markRestored =>
      rw [show Pool.performs (adminProgram app) (Pool.turn _ i) [] = Pool.turn _ i from rfl,
        show (Pool.turn _ i).state = AppState.markUserRestored r.username _ from hdoes] at hstays
      obtain ⟨-, hne⟩ := List.mem_filter.mp (List.contains_iff_mem.mp hstays)
      exact absurd hname.symm (of_decide_eq_true hne)
    | findUser => cases hmark
    | updateUser change => cases hmark
    | sessions op => cases hmark
  · by_contra hcollects
    rw [← collects_of_sameUsers hsame] at hcollects
    obtain ⟨n, hdropped⟩ := dropped_of_refresh i hcollects
    have hstays := h.stays (.start i .refreshRevokedUsers :: List.replicate n (.turn i)) ?_ hblocked
    · rw [hdropped] at hstays
      cases hstays
    · intro j r' hmem
      rcases List.mem_cons.mp hmem with heq | hmem
      · cases heq
      · cases List.eq_of_mem_replicate hmem
  · by_contra hstale
    rw [not_or] at hstale
    have hji : j ≠ i := by
      intro heq
      rw [heq, hl] at hj
      cases hj
    have hcursor : ∀ j, (((adminIdle s₀).performs (adminProgram app) before).procs j).Always
        (fun p => ∀ collected remaining, p.next? = some (.usersCursor collected remaining) →
          p = refreshUsersFrom app collected remaining) :=
      Pool.performs_always (fun _ _ _ h => nomatch h) fun _ call _ => always_cursor app call
    have hproc := (hcursor j).here collected remaining hj
    rw [← Pool.turn_procs_of_ne hji] at hproc
    have hdropped := dropped_of_cursor hproc hstale.1 fun _ => hstale.2
    have hstays := h.stays (List.replicate (remaining.length + 1) (.turn j)) ?_ hblocked
    · rw [hdropped] at hstays
      cases hstays
    · intro j' r' hmem
      cases List.eq_of_mem_replicate hmem

end Exact

/-- When the last operation on a user returns, the set is exact about him from then
on, in every interleaving, exactly if no other database has an account of his name
that can be read and, where he is blocked, the operation ends in a mark, the
default database has him blocked, and no refresh in flight has passed him. -/
theorem revokedExactly_iff (app : App) (s₀ : AppState) (before : AdminActs) (i : Nat)
    (r : Request) (op : AccountOp) (hmark : op.isMark = true) :
    let c := (adminIdle s₀).performs (adminProgram app) before
    (c.procs i).next? = some (.account r op) →
      (∀ j r' op', j ≠ i → (c.procs j).next? = some (.account r' op') →
        r'.About r.database r.username → ¬r'.SetsStatus) →
      (RevokedExactly app s₀ before i r.database r.username ↔
        MarkedForGood app op c r.database r.username) := by
  intro c hl hquiet
  refine ⟨markedForGood_of_revokedExactly hl hmark rfl, fun h => ?_⟩
  have hc := scripted_performs app s₀ before
  have hsettled := scripted_after hc hl hmark rfl hquiet h
  constructor
  · intro after hafter c hblocked
    exact List.contains_iff_mem.mpr ((cached_performs hsettled hafter).cached hblocked).1
  · intro after hafter pre j post hsplit c r' op' hl' hname hdb
    have hpre := scripted_performs app s₀ pre
    refine unchanged_of_elsewhere hpre hl' hname fun hread => ?_
    have hend := (cached_performs hsettled hafter).elsewhere r'.database hdb
    have hlater := readable_performs (.turn j :: post) hpre.plays hread
    rw [← Pool.performs_append, ← hsplit, Pool.performs_append] at hlater
    exact hend hlater

def oneUser (db : String) : AppState where
  databases := fun name =>
    if name = db then
      ⟨[{ id := "1", username := "user", email := "user@example.org" }], .empty⟩
    else ⟨[], .empty⟩
  revokedUsernames := []
  revokedSessionIds := []

def disableUser (db : String) : Request :=
  ⟨{ sub := "root", role := "admin" }, db, "user", .updateUserDisabled true 0⟩

def disabling (db : String) : AdminActs :=
  .start 0 (.request (disableUser db)) :: List.replicate 4 (.turn 0)

def refreshing : AdminActs := [.start 1 .refreshRevokedUsers, .turn 1, .turn 1, .turn 1]

theorem quiet_refreshing (db : String) : QuietAbout db "user" refreshing := by
  intro j r hmem
  simp [refreshing] at hmem

/-- In the default database the user stays in the set over a refresh. -/
theorem disabled_user_stays :
    ((((adminIdle (oneUser "sentora")).performs (adminProgram sampleApp)
      (disabling "sentora")).turn 0).performs (adminProgram sampleApp)
        refreshing).state.isUserRevoked "user" = true := by
  refine ((revokedExactly_iff sampleApp (oneUser "sentora") (disabling "sentora") 0
    (disableUser "sentora") .markRevoked rfl rfl ?_).mpr ⟨?_, fun _ => ⟨rfl, ?_, ?_⟩⟩).stays _
      (quiet_refreshing _) ?_
  · intro j r op hj hl
    match j with
    | 0 => exact absurd rfl hj
    | j + 1 => cases hl
  · rintro db hdb ⟨d, u, hd, -⟩
    have hne : db ≠ "sentora" := hdb
    have hother : ((adminIdle (oneUser "sentora")).performs (adminProgram sampleApp)
        (disabling "sentora")).state.databases db = (oneUser "sentora").databases db := by
      show Function.update (Function.update (Function.update _ "sentora" _) "sentora" _) "sentora"
        _ db = _
      rw [Function.update_of_ne hne, Function.update_of_ne hne, Function.update_of_ne hne]
      rfl
    have hempty : (oneUser "sentora").databases db = ⟨[], .empty⟩ := if_neg hne
    unfold AppState.findUser at hd
    rw [show (disableUser "sentora").username = "user" from rfl, hother, hempty] at hd
    cases hd
  · decide
  · intro j collected remaining hl
    match j with
    | 0 => cases hl
    | j + 1 => cases hl
  · decide

/-- In another database the next refresh drops him. -/
theorem refresh_drops_tenant_user :
    ¬∀ (app : App) (s₀ : AppState) (before : AdminActs) (i : Nat) (r : Request) (op : AccountOp),
      op.isMark = true →
      let c := (adminIdle s₀).performs (adminProgram app) before
      (c.procs i).next? = some (.account r op) →
        (∀ j r' op', j ≠ i → (c.procs j).next? = some (.account r' op') →
          r'.About r.database r.username → ¬r'.SetsStatus) →
        RevokedExactly app s₀ before i r.database r.username := by
  intro hclaim
  have hexact := hclaim sampleApp (oneUser "tenant") (disabling "tenant") 0 (disableUser "tenant")
    .markRevoked rfl rfl ?_
  · have hstays := hexact.stays refreshing (quiet_refreshing _) (by decide)
    exact absurd hstays (by decide)
  · intro j r op hj hl
    match j with
    | 0 => exact absurd rfl hj
    | j + 1 => cases hl

end Sentora.Auth
