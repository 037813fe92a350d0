import Mathlib.Data.List.Nodup
import Sentora.Auth.Revocation

/-!
# The cache of revoked sessions

`domains/auth/session_revocation.py`: whether a session that was revoked stays in
the set that requests are checked against.

A revocation ends the session in the database and adds it to the set.  A refresh
reads the sessions one after the other and replaces the set by what it found, so
that it undoes the additions made since it passed their sessions.
-/

namespace Sentora.Auth

open Lib Process

/-- The database and the set of one process. -/
structure CacheState where
  store : AuthStore
  revokedSessionIds : List String

def CacheState.isSessionRevoked (c : CacheState) (sessionId : String) : Bool :=
  c.revokedSessionIds.contains sessionId

/-- The steps: a database operation, of a call that read the clock then, an
addition to the set, the opening of the cursor of a refresh, and its next step,
with what it has collected and what it still has to read. -/
inductive CacheOp where
  | store (clock : Option Nat) (op : AuthOp)
  | mark (sessionIds : List String)
  | openCursor (now : Nat)
  | cursor (now : Nat) (collected remaining : List String)

def inStore {α : Type} (clock : Option Nat) (p : Process AuthStore AuthOp α) :
    Process CacheState CacheOp α :=
  p.zoom CacheState.store (fun s c => { c with store := s }) (.store clock)

def markSessionsRevoked (sessionIds : List String) : Process CacheState CacheOp Unit :=
  .write (.mark sessionIds)
    fun c => { c with revokedSessionIds := c.revokedSessionIds ++ sessionIds }

def markSessionRevoked (sessionId : String) : Process CacheState CacheOp Unit :=
  markSessionsRevoked [sessionId]

/-- `revoke_session` with its update of the set. -/
def revokeSessionMarked (sessionId reason : String) (now : Nat) :
    Process CacheState CacheOp Bool := do
  let revoked ← inStore (some now) (revokeSession sessionId reason now)
  if revoked then do
    markSessionRevoked sessionId
    pure true
  else pure false

/-- The writes of `revoke_all_user_sessions`. -/
def revokeListed (found : List SessionDoc) (reason : String) (now : Nat) :
    Process AuthStore AuthOp Nat := do
  let sessionIds := found.map SessionDoc.sessionId
  let familyIds := (found.map SessionDoc.refreshTokenFamily).filter (fun f => f ≠ "")
  let modified ← .atomic .deactivateSessions (deactivateSessions sessionIds now reason)
  if familyIds ≠ [] then do
    let _deleted ← .atomic .deleteTokens (deleteTokens fun d => familyIds.contains d.familyId)
    pure modified
  else pure modified

/-- `revoke_all_user_sessions` with its update of the set. -/
def revokeAllUserSessionsMarked (username reason : String) (excludeSessionId : Option String)
    (now : Nat) : Process CacheState CacheOp Nat := do
  let found ← inStore (some now) (.read .listSessions (sessionsToRevoke username excludeSessionId))
  if found.map SessionDoc.sessionId = [] then pure 0
  else do
    let modified ← inStore (some now) (revokeListed found reason now)
    markSessionsRevoked (found.map SessionDoc.sessionId)
    pure modified

/-- The query of a refresh, on the document of the session: inactive, and revoked
within the last 24 hours. -/
def recentlyRevoked (now : Nat) (sessionId : String) (s : AuthStore) : Bool :=
  s.sessions.any fun d => d.sessionId == sessionId && !d.isActive &&
    d.revokedAt.any (fun revokedAt => decide (now < revokedAt + days 1))

inductive CacheReply where
  | reply (r : Reply)
  | refreshed

def refreshFrom (now : Nat) : List String → List String → Process CacheState CacheOp CacheReply :=
  sweep (.cursor now) (fun sessionId c => recentlyRevoked now sessionId c.store && sessionId != "")
    (fun sessionIds c => { c with revokedSessionIds := sessionIds }) .refreshed

def refreshRevokedSessions (now : Nat) : Process CacheState CacheOp CacheReply :=
  .step (.openCursor now) (fun c => c) fun c =>
    refreshFrom now [] (c.store.sessions.map SessionDoc.sessionId)

inductive CacheCall where
  | auth (call : AuthCall)
  | refresh (now : Nat)

def cacheProgram (service : Service) (call : CacheCall) : Process CacheState CacheOp CacheReply :=
  match call with
  | .auth (.revokeSession sessionId reason now) => do
    let b ← revokeSessionMarked sessionId reason now
    pure (.reply (.flag b))
  | .auth (.revokeAllUserSessions username reason exclude now) => do
    let n ← revokeAllUserSessionsMarked username reason exclude now
    pure (.reply (.count n))
  | .auth call => do
    let r ← inStore none (program service call)
    pure (.reply r)
  | .refresh now => refreshRevokedSessions now

abbrev CachePool := Pool Nat CacheState CacheOp (fun _ => CacheReply)

abbrev CacheActs := List (Pool.Act Nat CacheCall)

def cacheIdle (c : CacheState) : CachePool := ⟨c, fun _ => .ret .refreshed⟩

section Connection

variable {c : CacheState}

theorem run_inStore {α : Type} {clock : Option Nat} (p : Process AuthStore AuthOp α) :
    (inStore clock p).run c = ({ c with store := (p.run c.store).1 }, (p.run c.store).2) := by
  unfold inStore
  induction p generalizing c with
  | ret a => rfl
  | step l u k ih => exact ih c.store

/-- The set apart, the two operations are those on the database. -/
theorem run_revokeSessionMarked (sessionId reason : String) (now : Nat) :
    ((revokeSessionMarked sessionId reason now).run c).1.store =
        ((revokeSession sessionId reason now).run c.store).1 ∧
      ((revokeSessionMarked sessionId reason now).run c).2 =
        ((revokeSession sessionId reason now).run c.store).2 := by
  unfold revokeSessionMarked
  rw [run_bind, run_inStore]
  cases ((revokeSession sessionId reason now).run c.store).2 with
  | true => exact ⟨rfl, rfl⟩
  | false => exact ⟨rfl, rfl⟩

theorem revokeAllUserSessions_eq (username reason : String) (exclude : Option String)
    (now : Nat) :
    revokeAllUserSessions username reason exclude now =
      (Process.read .listSessions (sessionsToRevoke username exclude) >>= fun found =>
        if found.map SessionDoc.sessionId = [] then pure 0 else revokeListed found reason now) :=
  rfl

theorem run_revokeAllUserSessionsMarked (username reason : String) (exclude : Option String)
    (now : Nat) :
    ((revokeAllUserSessionsMarked username reason exclude now).run c).1.store =
        ((revokeAllUserSessions username reason exclude now).run c.store).1 ∧
      ((revokeAllUserSessionsMarked username reason exclude now).run c).2 =
        ((revokeAllUserSessions username reason exclude now).run c.store).2 := by
  unfold revokeAllUserSessionsMarked
  rw [revokeAllUserSessions_eq, run_bind, run_bind, run_inStore, run_read]
  dsimp only
  by_cases hnil : (sessionsToRevoke username exclude c.store).map SessionDoc.sessionId = []
  · rw [if_pos hnil, if_pos hnil]
    exact ⟨rfl, rfl⟩
  · rw [if_neg hnil, if_neg hnil, run_bind, run_inStore, run_bind]
    exact ⟨rfl, rfl⟩

end Connection

def Stored (sessionId : String) (s : AuthStore) : Prop :=
  sessionId ∈ s.sessions.map SessionDoc.sessionId

def Ended (sessionId : String) (s : AuthStore) : Prop :=
  Stored sessionId s ∧ ∀ d ∈ s.sessions, d.sessionId = sessionId →
    d.isActive = false ∧ d.revokedAt.isSome = true

def EndedSince (sessionId : String) (since : Nat) (s : AuthStore) : Prop :=
  Stored sessionId s ∧ ∀ d ∈ s.sessions, d.sessionId = sessionId →
    d.isActive = false ∧ ∃ revokedAt, d.revokedAt = some revokedAt ∧ since ≤ revokedAt

abbrev UniqueSessions (s : AuthStore) : Prop := (s.sessions.map SessionDoc.sessionId).Nodup

section Sessions

variable {s : AuthStore} {x : String} {since now : Nat}
variable {u : AuthStore → AuthStore} {S : SessionDoc → Prop} {R : SessionDoc → Prop}
  {T : TokenDoc → Prop}

theorem deactivateSession_ids (sessionId reason : String) (now : Nat) :
    (deactivateSession sessionId now reason s).1.sessions.map SessionDoc.sessionId =
      s.sessions.map SessionDoc.sessionId := by
  apply map_updateFirst
  intro d
  rfl

theorem deactivateSessions_ids (sessionIds : List String) (reason : String) (now : Nat) :
    (deactivateSessions sessionIds now reason s).1.sessions.map SessionDoc.sessionId =
      s.sessions.map SessionDoc.sessionId := by
  show (s.sessions.map _).map SessionDoc.sessionId = _
  rw [List.map_map]
  apply List.map_congr_left
  intro d _
  show (if d.sessionId ∈ sessionIds then revoked now reason d else d).sessionId = d.sessionId
  split <;> rfl

theorem insertSession_cases (doc : SessionDoc) (s : AuthStore) :
    (insertSession doc s).1 = s ∨
      ¬Stored doc.sessionId s ∧ (insertSession doc s).1.sessions = s.sessions ++ [doc] := by
  unfold insertSession
  by_cases hold : s.sessions.any (fun d => d.sessionId == doc.sessionId) = true
  · rw [if_pos hold]
    exact Or.inl rfl
  · rw [if_neg hold]
    refine Or.inr ⟨fun hstored => hold ?_, rfl⟩
    obtain ⟨d, hd, hid⟩ := List.mem_map.mp hstored
    exact List.any_eq_true.mpr ⟨d, hd, beq_iff_eq.mpr hid⟩

theorem growth_sessions
    (hu : Growth T S u) (s : AuthStore) :
    (u s).sessions = s.sessions ∨
      ∃ doc, ¬Stored doc.sessionId s ∧ (u s).sessions = s.sessions ++ [doc] := by
  cases hu with
  | tokens h => exact Or.inl (h.sessions s)
  | @insertSession doc hdoc =>
    rcases insertSession_cases doc s with h | ⟨hnew, h⟩
    · exact Or.inl (congrArg AuthStore.sessions h)
    · exact Or.inr ⟨doc, hnew, h⟩

theorem each_growth (hu : Growth T S u)
    (h : Stored x s ∧ ∀ d ∈ s.sessions, d.sessionId = x → R d) :
    Stored x (u s) ∧ ∀ d ∈ (u s).sessions, d.sessionId = x → R d := by
  unfold Stored at h ⊢
  rcases growth_sessions hu s with heq | ⟨doc, hnew, heq⟩
  · rw [heq]
    exact h
  · rw [heq]
    refine ⟨?_, fun d hd hid => ?_⟩
    · rw [List.map_append]
      exact List.mem_append_left _ h.1
    · rcases List.mem_append.mp hd with hd | hd
      · exact h.2 d hd hid
      · rw [List.mem_singleton.mp hd] at hid
        rw [hid] at hnew
        exact absurd h.1 hnew

theorem each_deactivate {reason : String}
    (hrev : ∀ d, R (revoked now reason d)) (sessionId : String)
    (h : Stored x s ∧ ∀ d ∈ s.sessions, d.sessionId = x → R d) :
    Stored x (deactivateSession sessionId now reason s).1 ∧
      ∀ d ∈ (deactivateSession sessionId now reason s).1.sessions, d.sessionId = x → R d := by
  refine ⟨?_, fun d hd hid => ?_⟩
  · unfold Stored
    rw [deactivateSession_ids]
    exact h.1
  · rcases mem_updateFirst hd with hd | ⟨e, -, -, heq⟩
    · exact h.2 d hd hid
    · rw [heq]
      exact hrev e

theorem each_deactivateAll {reason : String}
    (hrev : ∀ d, R (revoked now reason d)) (sessionIds : List String)
    (h : Stored x s ∧ ∀ d ∈ s.sessions, d.sessionId = x → R d) :
    Stored x (deactivateSessions sessionIds now reason s).1 ∧
      ∀ d ∈ (deactivateSessions sessionIds now reason s).1.sessions, d.sessionId = x → R d := by
  refine ⟨?_, fun d hd hid => ?_⟩
  · unfold Stored
    rw [deactivateSessions_ids]
    exact h.1
  · obtain ⟨e, he, heq⟩ := List.mem_map.mp hd
    by_cases hmem : e.sessionId ∈ sessionIds
    · rw [if_pos hmem] at heq
      rw [← heq]
      exact hrev e
    · rw [if_neg hmem] at heq
      rw [← heq] at hid ⊢
      exact h.2 e he hid

theorem unique_growth
    (hu : Growth T S u) (h : UniqueSessions s) : UniqueSessions (u s) := by
  unfold UniqueSessions
  rcases growth_sessions hu s with heq | ⟨doc, hnew, heq⟩
  · rw [heq]
    exact h
  · rw [heq, List.map_append]
    refine List.Nodup.append h (List.nodup_singleton _) ?_
    intro y hy hsingle
    rw [List.mem_singleton.mp hsingle] at hy
    exact hnew hy

end Sessions

/-! ## What happens to a session in the database

An ended session stays stored and ended, and a revocation that is about to add
sessions to the set has ended them. -/

def sessionProtocol : Protocol AuthStore AuthOp where
  inv := UniqueSessions
  rely s t := ∀ x, (Stored x s → Stored x t) ∧ (Ended x s → Ended x t)
  asserts _ _ := True
  does _ s t := ∀ x, (Stored x s → Stored x t) ∧ (Ended x s → Ended x t)
  refl _ _ := ⟨id, id⟩
  trans hst htu x := ⟨fun h => (htu x).1 ((hst x).1 h), fun h => (htu x).2 ((hst x).2 h)⟩
  does_rely := id

def cacheProtocol : Protocol CacheState CacheOp where
  inv c := UniqueSessions c.store
  rely c c' := sessionProtocol.rely c.store c'.store
  asserts l c :=
    match l with
    | .mark sessionIds => ∀ x ∈ sessionIds, Ended x c.store
    | _ => True
  does _ c c' := sessionProtocol.rely c.store c'.store
  refl c := sessionProtocol.refl c.store
  trans h h' := sessionProtocol.trans h h'
  does_rely := id

section Protocols

variable {s : AuthStore} {x : String}

theorem stored_iff_ids {t : AuthStore}
    (h : t.sessions.map SessionDoc.sessionId = s.sessions.map SessionDoc.sessionId) :
    Stored x t ↔ Stored x s := by
  unfold Stored
  rw [h]

abbrev AnyUpdate : (AuthStore → AuthStore) → Prop := StoreUpdate (fun _ => True) fun _ => True

theorem protocol_update {u : AuthStore → AuthStore} (hu : AnyUpdate u) (h : UniqueSessions s) :
    UniqueSessions (u s) ∧ sessionProtocol.rely s (u s) := by
  cases hu with
  | growth hu =>
    refine ⟨unique_growth hu h, fun x => ⟨fun hx => ?_, each_growth hu⟩⟩
    have htrivial : Stored x s ∧ ∀ d ∈ s.sessions, d.sessionId = x → True :=
      ⟨hx, fun _ _ _ => trivial⟩
    exact (each_growth hu htrivial).1
  | deactivateSession sessionId now reason =>
    have hids := deactivateSession_ids (s := s) sessionId reason now
    refine ⟨?_, fun x => ⟨(stored_iff_ids hids).mpr, ?_⟩⟩
    · unfold UniqueSessions
      rw [hids]
      exact h
    · exact each_deactivate (fun d => ⟨rfl, rfl⟩) sessionId
  | deactivateSessions sessionIds now reason =>
    have hids := deactivateSessions_ids (s := s) sessionIds reason now
    refine ⟨?_, fun x => ⟨(stored_iff_ids hids).mpr, ?_⟩⟩
    · unfold UniqueSessions
      rw [hids]
      exact h
    · exact each_deactivateAll (fun d => ⟨rfl, rfl⟩) sessionIds

theorem obeys_of_updates {α : Type} {p : Process AuthStore AuthOp α}
    (hp : Updates AnyUpdate p) (s : AuthStore) :
    Obeys sessionProtocol (fun _ _ => True) s p :=
  hp.obeys (fun _ hu _ _ ht => protocol_update hu ht) (fun _ _ => trivial) s

theorem Obeys.inStore {α : Type} {Q : AuthStore → α → Prop} {clock : Option Nat} {c : CacheState}
    {p : Process AuthStore AuthOp α} (hp : Obeys sessionProtocol Q c.store p) :
    Obeys cacheProtocol (fun c a => Q c.store a) c (Auth.inStore clock p) := by
  unfold Auth.inStore
  refine Obeys.zoom (fun _ _ => rfl) ?_ ?_ ?_ ?_ ?_ hp
  · exact fun _ => id
  · exact fun _ _ _ => id
  · exact fun _ _ => id
  · exact fun _ _ _ => trivial
  · exact fun _ _ _ => id

theorem eq_of_mem_updateFirst {query : SessionDoc → Bool} {update : SessionDoc → SessionDoc}
    {l : List SessionDoc} {d e : SessionDoc} (hl : (l.map SessionDoc.sessionId).Nodup)
    (hquery : ∀ d, query d = true → d.sessionId = x) (he : e ∈ l) (hmatch : query e = true)
    (hd : d ∈ updateFirst query update l) (hid : d.sessionId = x) : d = update e := by
  induction l with
  | nil => exact absurd he List.not_mem_nil
  | cons a l ih =>
    rw [List.map_cons, List.nodup_cons] at hl
    rw [updateFirst] at hd
    by_cases ha : query a = true
    · rw [if_pos ha] at hd
      have hea : e = a := by
        rcases List.mem_cons.mp he with he | he
        · exact he
        · have hsame : a.sessionId = e.sessionId := (hquery a ha).trans (hquery e hmatch).symm
          exact absurd (List.mem_map.mpr ⟨e, he, hsame.symm⟩) hl.1
      rcases List.mem_cons.mp hd with hd | hd
      · rw [hd, hea]
      · have hsame : d.sessionId = a.sessionId := hid.trans (hquery a ha).symm
        exact absurd (List.mem_map.mpr ⟨d, hd, hsame⟩) hl.1
    · rw [if_neg ha] at hd
      have hel : e ∈ l := by
        rcases List.mem_cons.mp he with he | he
        · rw [he] at hmatch
          exact absurd hmatch ha
        · exact he
      rcases List.mem_cons.mp hd with hd | hd
      · have hsame : e.sessionId = a.sessionId := by rw [hquery e hmatch, ← hid, hd]
        exact absurd (List.mem_map.mpr ⟨e, hel, hsame⟩) hl.1
      · exact ih hl.2 hel hd

theorem ended_of_deactivateSession {sessionId reason : String} {now : Nat} {doc : SessionDoc}
    (h : UniqueSessions s)
    (hfound : (deactivateSession sessionId now reason s).2 = some doc) :
    Ended sessionId (deactivateSession sessionId now reason s).1 := by
  obtain ⟨hmem, hquery⟩ := mem_of_find? hfound
  have hid : doc.sessionId = sessionId := by
    rw [Bool.and_eq_true, beq_iff_eq] at hquery
    exact hquery.1
  refine ⟨(stored_iff_ids (deactivateSession_ids sessionId reason now)).mpr
    (List.mem_map.mpr ⟨doc, hmem, hid⟩), fun d hd hd' => ?_⟩
  have hmatches : ∀ d : SessionDoc,
      (d.sessionId == sessionId && d.isActive) = true → d.sessionId = sessionId := by
    intro d hd
    rw [Bool.and_eq_true, beq_iff_eq] at hd
    exact hd.1
  rw [eq_of_mem_updateFirst h hmatches hmem hquery hd hd']
  exact ⟨rfl, rfl⟩

theorem ended_of_deactivateSessions {sessionIds : List String} {reason : String} {now : Nat}
    (hx : x ∈ sessionIds) (h : Stored x s) :
    Ended x (deactivateSessions sessionIds now reason s).1 := by
  refine ⟨(stored_iff_ids (deactivateSessions_ids sessionIds reason now)).mpr h, ?_⟩
  intro d hd hid
  obtain ⟨e, -, heq⟩ := List.mem_map.mp hd
  by_cases hmem : e.sessionId ∈ sessionIds
  · rw [if_pos hmem] at heq
    rw [← heq]
    exact ⟨rfl, rfl⟩
  · rw [if_neg hmem] at heq
    rw [← heq] at hid
    rw [hid] at hmem
    exact absurd hx hmem

theorem obeys_deleteTokens {Q : AuthStore → Prop}
    (hQ : ∀ s t, sessionProtocol.rely s t → Q s → Q t) {s : AuthStore} (hs : Q s)
    (query : TokenDoc → Bool) :
    Obeys sessionProtocol (fun t _ => Q t) s
      (Process.atomic AuthOp.deleteTokens (deleteTokens query)) := by
  refine obeys_atomic fun t ht hst => ?_
  have hupdate : AnyUpdate fun s => (deleteTokens query s).1 :=
    .growth (.tokens (.deleteTokens query))
  obtain ⟨hunique, hrely⟩ := protocol_update hupdate ht
  exact ⟨trivial, hunique, hrely, hQ _ _ hrely (hQ _ _ hst hs)⟩

theorem obeys_revokeSession (sessionId reason : String) (now : Nat) (s : AuthStore) :
    Obeys sessionProtocol (fun t b => b = true → Ended sessionId t) s
      (revokeSession sessionId reason now) := by
  have hfirst : Obeys sessionProtocol (fun t r => r.isSome = true → Ended sessionId t) s
      (Process.atomic AuthOp.deactivateSession (deactivateSession sessionId now reason)) := by
    refine obeys_atomic fun t ht _ => ?_
    have hupdate : AnyUpdate fun s => (deactivateSession sessionId now reason s).1 :=
      .deactivateSession sessionId now reason
    obtain ⟨hunique, hrely⟩ := protocol_update hupdate ht
    refine ⟨trivial, hunique, hrely, fun hsome => ?_⟩
    obtain ⟨doc, hdoc⟩ := Option.isSome_iff_exists.mp hsome
    exact ended_of_deactivateSession ht hdoc
  refine hfirst.bind fun t r hr => ?_
  cases r with
  | none => exact fun h => absurd h Bool.noConfusion
  | some doc =>
    have hended : Ended sessionId t := hr rfl
    dsimp only
    split
    · refine (obeys_deleteTokens (fun _ _ h => (h sessionId).2) hended _).bind fun t' _ h => ?_
      exact fun _ => h
    · exact fun _ => hended

theorem obeys_revokeListed {found : List SessionDoc} (reason : String) (now : Nat) {s : AuthStore}
    (hfound : ∀ x ∈ found.map SessionDoc.sessionId, Stored x s) :
    Obeys sessionProtocol (fun t _ => ∀ x ∈ found.map SessionDoc.sessionId, Ended x t) s
      (revokeListed found reason now) := by
  have hfirst : Obeys sessionProtocol
      (fun t _ => ∀ x ∈ found.map SessionDoc.sessionId, Ended x t) s
      (Process.atomic AuthOp.deactivateSessions
        (deactivateSessions (found.map SessionDoc.sessionId) now reason)) := by
    refine obeys_atomic fun t ht hst => ?_
    have hupdate : AnyUpdate fun s =>
        (deactivateSessions (found.map SessionDoc.sessionId) now reason s).1 :=
      .deactivateSessions _ now reason
    obtain ⟨hunique, hrely⟩ := protocol_update hupdate ht
    exact ⟨trivial, hunique, hrely,
      fun x hx => ended_of_deactivateSessions hx ((hst x).1 (hfound x hx))⟩
  refine hfirst.bind fun t modified hended => ?_
  split
  · have hkept : ∀ s t, sessionProtocol.rely s t →
        (∀ x ∈ found.map SessionDoc.sessionId, Ended x s) →
          ∀ x ∈ found.map SessionDoc.sessionId, Ended x t :=
      fun _ _ h hall x hx => (h x).2 (hall x hx)
    exact (obeys_deleteTokens hkept hended _).bind fun t' _ h => h
  · exact hended

theorem obeys_mark {sessionIds : List String} {c : CacheState}
    (h : ∀ x ∈ sessionIds, Ended x c.store) :
    Obeys cacheProtocol (fun _ _ => True) c (markSessionsRevoked sessionIds) := by
  refine obeys_atomic fun c' hc' hcc' => ?_
  exact ⟨fun x hx => (hcc' x).2 (h x hx), hc', sessionProtocol.refl _, trivial⟩

theorem obeys_refreshFrom (now : Nat) (collected remaining : List String) (c : CacheState) :
    Obeys cacheProtocol (fun _ _ => True) c (refreshFrom now collected remaining) := by
  refine obeys_sweep (fun collected remaining t _ => ?_) (fun collected t ht => ?_) _ _ c
  · exact ⟨trivial, sessionProtocol.refl _⟩
  · exact ⟨trivial, ht, sessionProtocol.refl _⟩

theorem obeys_cacheProgram (service : Service) (call : CacheCall) (c : CacheState) :
    Obeys cacheProtocol (fun _ _ => True) c (cacheProgram service call) := by
  have hother : ∀ auth, Updates AnyUpdate (program service auth) →
      Obeys cacheProtocol (fun _ _ => True) c (do
        let r ← inStore none (program service auth)
        pure (CacheReply.reply r)) :=
    fun auth hauth => (Obeys.inStore (obeys_of_updates hauth c.store)).bind fun _ _ _ => trivial
  cases call with
  | refresh now =>
    intro c' hc' _
    exact ⟨trivial, hc', sessionProtocol.refl _, obeys_refreshFrom now [] _ _⟩
  | auth call =>
    cases call with
    | revokeSession sessionId reason now =>
      refine Obeys.bind (R := fun _ _ => True) ?_ fun _ _ _ => trivial
      refine (Obeys.inStore (obeys_revokeSession sessionId reason now c.store)).bind ?_
      intro c' b hb
      cases b with
      | false => trivial
      | true =>
        refine (obeys_mark fun x hx => ?_).bind fun _ _ _ => trivial
        rw [List.mem_singleton.mp hx]
        exact hb rfl
    | revokeAllUserSessions username reason exclude now =>
      refine Obeys.bind (R := fun _ _ => True) ?_ fun _ _ _ => trivial
      have hread : Obeys sessionProtocol
          (fun t found => ∀ x ∈ found.map SessionDoc.sessionId, Stored x t) c.store
          (Process.read .listSessions (sessionsToRevoke username exclude)) := by
        refine obeys_atomic fun t ht _ => ⟨trivial, ht, sessionProtocol.refl t, fun x hx => ?_⟩
        obtain ⟨d, hd, hid⟩ := List.mem_map.mp hx
        exact List.mem_map.mpr ⟨d, (List.mem_filter.mp hd).1, hid⟩
      refine (Obeys.inStore hread).bind fun c' found hfound => ?_
      split
      · trivial
      · refine (Obeys.inStore (obeys_revokeListed reason now hfound)).bind ?_
        intro c'' modified hended
        exact (obeys_mark hended).bind fun _ _ _ => trivial
    | rotate a => exact hother (.rotate a) (updates_program fun _ _ => trivial)
    | login a => exact hother (.login a) (updates_program ⟨trivial, trivial⟩)
    | revokeUserTokens username =>
      exact hother (.revokeUserTokens username) (updates_program trivial)
    | revokeFamily token => exact hother (.revokeFamily token) (updates_program trivial)

end Protocols

def Cached (x : String) (since : Nat) (c : CacheState) : Prop :=
  x ∈ c.revokedSessionIds ∧ EndedSince x since c.store

def Stale (x : String) (p : Process CacheState CacheOp CacheReply) : Prop :=
  match p.next? with
  | some (.cursor _ collected remaining) => x ∉ collected ∧ x ∉ remaining
  | _ => False

/-- A revocation read the clock at the time or later, a refresh less than 24
hours after it. -/
def InDay (since : Nat) (l : CacheOp) : Prop :=
  match l with
  | .store (some now) _ => since ≤ now
  | .openCursor now => now < since + days 1
  | .cursor now _ _ => now < since + days 1
  | _ => True

def NextInDay (since : Nat) (p : Process CacheState CacheOp CacheReply) : Prop :=
  ∀ l, p.next? = some l → InDay since l

def CacheSettled (x : String) (p : Process CacheState CacheOp CacheReply) : Prop :=
  ∀ since, NextInDay since p → ¬Stale x p → Keeps (Cached x since) (fun _ => True) p

def Labelled (p : Process CacheState CacheOp CacheReply) : Prop :=
  (∀ sessionIds, p.next? = some (.mark sessionIds) → ∃ r, p = .step (.mark sessionIds)
      (fun c => { c with revokedSessionIds := c.revokedSessionIds ++ sessionIds })
      fun _ => .ret r) ∧
    ∀ now collected remaining, p.next? = some (.cursor now collected remaining) →
      p = refreshFrom now collected remaining

section Cache

variable {x : String} {since : Nat}
variable {clock : Option Nat} {α : Type} {p : Process AuthStore AuthOp α}
  {f : α → Process CacheState CacheOp CacheReply} {now : Nat}

theorem endedSince_growth {T : TokenDoc → Prop} {S : SessionDoc → Prop}
    (hp : Updates (Growth T S) p) :
    Steady (EndedSince x since) p :=
  hp.steady fun _ hu _ hs => each_growth hu hs

theorem endedSince_deleteTokens (query : TokenDoc → Bool) :
    Steady (EndedSince x since) (Process.atomic AuthOp.deleteTokens (deleteTokens query)) :=
  steady_atomic fun _ hs => hs

theorem endedSince_revokeSession (hnow : since ≤ now) (sessionId reason : String) :
    Steady (EndedSince x since) (revokeSession sessionId reason now) := by
  refine Steady.bind (steady_atomic fun s hs => ?_) fun result => ?_
  · exact each_deactivate (fun d => ⟨rfl, now, rfl, hnow⟩) sessionId hs
  · cases result with
    | none => trivial
    | some doc =>
      dsimp only
      split
      · exact (endedSince_deleteTokens _).bind fun _ => trivial
      · trivial

theorem endedSince_revokeListed (hnow : since ≤ now) (found : List SessionDoc)
    (reason : String) : Steady (EndedSince x since) (revokeListed found reason now) := by
  refine Steady.bind (steady_atomic fun s hs => ?_) fun modified => ?_
  · exact each_deactivateAll (fun d => ⟨rfl, now, rfl, hnow⟩) _ hs
  · split
    · exact (endedSince_deleteTokens _).bind fun _ => trivial
    · trivial

theorem cached_inStore
    (hp : Steady (EndedSince x since) p) : Steady (Cached x since) (inStore clock p) :=
  hp.zoom (fun _ hc => hc.2) fun _ _ hc hs => ⟨hc.1, hs⟩

theorem cached_mark (sessionIds : List String) :
    Steady (Cached x since) (markSessionsRevoked sessionIds) :=
  steady_atomic fun _ hc => ⟨List.mem_append_left _ hc.1, hc.2⟩

theorem settled_of_cached {p : Process CacheState CacheOp CacheReply}
    (hp : ∀ since, Steady (Cached x since) p) : Always (CacheSettled x) p := by
  induction p with
  | ret a => exact fun _ _ _ => trivial
  | step l u k ih =>
    exact ⟨fun since _ _ => (hp since).keeps, fun c => ih c fun since => (hp since).2 c⟩

/-- A call to the database at a time, and what follows it. -/
theorem settled_inStore
    (hp : ∀ since, (∀ now, clock = some now → since ≤ now) → Steady (EndedSince x since) p)
    (hf : ∀ a since, (∀ now, clock = some now → since ≤ now) → Steady (Cached x since) (f a))
    (hrest : ∀ a, Always (CacheSettled x) (f a)) :
    Always (CacheSettled x) (inStore clock p >>= f) := by
  induction p with
  | ret a => exact hrest a
  | step l u k ih =>
    refine ⟨fun since hday _ => ?_, fun c => ih c.store fun since hclock => (hp since hclock).2 _⟩
    have hclock : ∀ now, clock = some now → since ≤ now := by
      intro now hnow
      have hlabel := hday (.store clock l) rfl
      rw [hnow] at hlabel
      exact hlabel
    exact ((cached_inStore (hp since hclock)).bind fun a => hf a since hclock).keeps

theorem labelled_ret (r : CacheReply) : Labelled (.ret r) := by
  constructor
  · intro sessionIds h
    cases h
  · intro now collected remaining h
    cases h

theorem labelled_inStore (hrest : ∀ a, Always Labelled (f a)) :
    Always Labelled (inStore clock p >>= f) := by
  induction p with
  | ret a => exact hrest a
  | step l u k ih =>
    refine ⟨⟨fun sessionIds h => ?_, fun now collected remaining h => ?_⟩, fun c => ih c.store⟩
    · cases h
    · cases h

theorem labelled_mark (sessionIds : List String) (r : CacheReply) :
    Always Labelled (markSessionsRevoked sessionIds >>= fun _ => pure r) := by
  refine ⟨⟨fun ids h => ?_, fun now collected remaining h => ?_⟩, fun c => labelled_ret r⟩
  · cases h
    exact ⟨r, rfl⟩
  · cases h

theorem recentlyRevoked_of_endedSince {s : AuthStore} (h : EndedSince x since s)
    (hnow : now < since + days 1) : recentlyRevoked now x s = true := by
  obtain ⟨d, hd, hid⟩ := List.mem_map.mp h.1
  obtain ⟨hinactive, revokedAt, hrevoked, hsince⟩ := h.2 d hd hid
  refine List.any_eq_true.mpr ⟨d, hd, ?_⟩
  have hrecent : now < revokedAt + days 1 := by omega
  rw [hid, hinactive, hrevoked, beq_self_eq_true, Option.any_some, decide_eq_true hrecent]
  rfl

theorem keeps_refreshFrom (hx : x ≠ "") (hnow : now < since + days 1)
    {collected remaining : List String} (h : x ∈ collected ∨ x ∈ remaining) :
    Keeps (Cached x since) (fun _ => True) (refreshFrom now collected remaining) := by
  refine keeps_sweep (fun c hc => ?_) (fun c collected hc hmem => ⟨hmem, hc.2⟩) h
  rw [recentlyRevoked_of_endedSince hc.2 hnow, Bool.true_and]
  exact bne_iff_ne.mpr hx

theorem always_refreshFrom (hx : x ≠ "") (now : Nat) (collected remaining : List String) :
    Always (fun p => CacheSettled x p ∧ Labelled p) (refreshFrom now collected remaining) := by
  refine always_sweep ⟨fun _ _ _ => trivial, labelled_ret _⟩ (fun collected remaining => ?_) _ _
  have hnext : (refreshFrom now collected remaining).next? =
      some (.cursor now collected remaining) := sweep_next? ..
  show CacheSettled x (refreshFrom now collected remaining) ∧
    Labelled (refreshFrom now collected remaining)
  refine ⟨fun since hday hstale => ?_, fun sessionIds h => ?_,
    fun now' collected' remaining' h => ?_⟩
  · refine keeps_refreshFrom hx (hday _ hnext) ?_
    unfold Stale at hstale
    rw [hnext] at hstale
    by_contra hnot
    rw [not_or] at hnot
    exact hstale hnot
  · rw [hnext] at h
    cases h
  · rw [hnext] at h
    cases h
    rfl

theorem always_other {p : Process AuthStore AuthOp Reply}
    (hp : Updates (Growth (fun _ => True) fun _ => True) p) :
    Always (fun q => CacheSettled x q ∧ Labelled q) (do
      let r ← inStore none p
      pure (CacheReply.reply r)) := by
  refine Always.and ?_ (labelled_inStore fun r => labelled_ret _)
  exact settled_inStore (fun since _ => endedSince_growth hp) (fun _ _ _ => trivial)
    fun r since _ _ => trivial

theorem always_revokeSession (sessionId reason : String) (now : Nat) :
    Always (fun q => CacheSettled x q ∧ Labelled q) (do
      let b ← revokeSessionMarked sessionId reason now
      pure (CacheReply.reply (.flag b))) := by
  unfold revokeSessionMarked
  rw [bind_assoc]
  have hmark : ∀ (b : Bool) since, Steady (Cached x since) ((if b then do
      markSessionRevoked sessionId
      pure true
    else pure false) >>= fun b => pure (CacheReply.reply (.flag b))) := by
    intro b since
    cases b with
    | true =>
      show Steady (Cached x since) (markSessionsRevoked [sessionId] >>= fun _ =>
        pure (CacheReply.reply (.flag true)))
      exact (cached_mark [sessionId]).bind fun _ => trivial
    | false => trivial
  refine Always.and (settled_inStore ?_ (fun b since _ => hmark b since) ?_) ?_
  · exact fun since hclock => endedSince_revokeSession (hclock now rfl) sessionId reason
  · exact fun b => settled_of_cached (hmark b)
  · refine labelled_inStore fun b => ?_
    cases b with
    | true => exact labelled_mark [sessionId] _
    | false => exact labelled_ret _

theorem always_revokeAllUserSessions (username reason : String) (exclude : Option String)
    (now : Nat) :
    Always (fun q => CacheSettled x q ∧ Labelled q) (do
      let n ← revokeAllUserSessionsMarked username reason exclude now
      pure (CacheReply.reply (.count n))) := by
  unfold revokeAllUserSessionsMarked
  rw [bind_assoc]
  have hwrites : ∀ found since, since ≤ now → Steady (Cached x since)
      (inStore (some now) (revokeListed found reason now) >>= fun modified =>
        markSessionsRevoked (found.map SessionDoc.sessionId) >>= fun _ =>
          pure (CacheReply.reply (.count modified))) :=
    fun found since hnow => (cached_inStore (endedSince_revokeListed hnow found reason)).bind
      fun modified => (cached_mark _).bind fun _ => trivial
  have hmark : ∀ (found : List SessionDoc) (modified : Nat) since, Steady (Cached x since)
      (markSessionsRevoked (found.map SessionDoc.sessionId) >>= fun _ =>
        pure (CacheReply.reply (.count modified))) :=
    fun found modified since => (cached_mark _).bind fun _ => trivial
  have hread : ∀ since, Steady (EndedSince x since)
      (Process.read AuthOp.listSessions (sessionsToRevoke username exclude)) :=
    fun since => steady_atomic fun _ hs => hs
  refine Always.and (settled_inStore (fun since _ => hread since) ?_ ?_) (labelled_inStore ?_)
  · intro found since hclock
    split
    · trivial
    · rw [bind_assoc]
      exact hwrites found since (hclock now rfl)
  · intro found
    split
    · exact fun _ _ _ => trivial
    · rw [bind_assoc]
      exact settled_inStore
        (fun since hclock => endedSince_revokeListed (hclock now rfl) found reason)
        (fun modified since _ => hmark found modified since)
        fun modified => settled_of_cached (hmark found modified)
  · intro found
    split
    · exact labelled_ret _
    · rw [bind_assoc]
      exact labelled_inStore fun modified => labelled_mark _ _

theorem not_stale_inStore (hf : ∀ a, ¬Stale x (f a)) :
    ¬Stale x (inStore clock p >>= f) := by
  cases p with
  | ret a => exact hf a
  | step l u k => exact id

theorem not_stale_cacheProgram (service : Service) (call : CacheCall) :
    ¬Stale x (cacheProgram service call) := by
  cases call with
  | refresh now => exact id
  | auth call =>
    cases call with
    | revokeSession sessionId reason now => exact id
    | revokeAllUserSessions username reason exclude now => exact id
    | rotate a => exact not_stale_inStore fun _ => id
    | login a => exact not_stale_inStore fun _ => id
    | revokeUserTokens username => exact not_stale_inStore fun _ => id
    | revokeFamily token => exact not_stale_inStore fun _ => id

theorem always_cacheProgram (hx : x ≠ "") (service : Service) (call : CacheCall) :
    Always (fun p => CacheSettled x p ∧ Labelled p) (cacheProgram service call) := by
  cases call with
  | refresh now =>
    refine ⟨⟨fun since hday _ => ?_, fun ids h => ?_, fun n collected remaining h => ?_⟩,
      fun c => always_refreshFrom hx now [] _⟩
    · exact fun c hc => ⟨hc, keeps_refreshFrom hx (hday _ rfl) (Or.inr hc.2.1)⟩
    · cases h
    · cases h
  | auth call =>
    cases call with
    | revokeSession sessionId reason now => exact always_revokeSession sessionId reason now
    | revokeAllUserSessions username reason exclude now =>
      exact always_revokeAllUserSessions username reason exclude now
    | rotate a =>
      refine always_other (Updates.bind ?_ fun _ => trivial)
      exact (updates_rotate fun _ _ => trivial).mono fun _ hu => .tokens hu
    | login a =>
      exact always_other (Updates.bind (updates_issueTokensWithSession trivial trivial)
        fun _ => trivial)
    | revokeUserTokens username =>
      refine always_other (Updates.bind ?_ fun _ => trivial)
      exact (updates_deleteTokens _).mono fun _ hu => .tokens hu
    | revokeFamily token =>
      refine always_other (Updates.bind ?_ fun _ => trivial)
      exact (updates_revokeFamily service token).mono fun _ hu => .tokens hu

end Cache

def StartsInDay (service : Service) (since : Nat) (acts : CacheActs) : Prop :=
  ∀ i call, .start i call ∈ acts → NextInDay since (cacheProgram service call)

section Runs

variable {service : Service} {x : String} {c : CachePool}

theorem ended_at_mark {c₀ : CacheState} (hc₀ : UniqueSessions c₀.store) (before : CacheActs)
    {i : Nat} {sessionIds : List String}
    (hmark : (((cacheIdle c₀).performs (cacheProgram service) before).procs i).next? =
      some (.mark sessionIds)) (hx : x ∈ sessionIds) :
    Ended x ((cacheIdle c₀).performs (cacheProgram service) before).state.store := by
  have hidle : Pool.Obeyed cacheProtocol (cacheIdle c₀) := ⟨hc₀, fun _ => trivial⟩
  have hobeyed : Pool.Obeyed cacheProtocol
      ((cacheIdle c₀).performs (cacheProgram service) before) :=
    hidle.performs fun call c => obeys_cacheProgram service call c
  exact hobeyed.asserts hmark x hx

theorem always_performs (service : Service) (hx : x ≠ "") (c₀ : CacheState)
    (before : CacheActs) (j : Nat) :
    (((cacheIdle c₀).performs (cacheProgram service) before).procs j).Always
      (fun p => CacheSettled x p ∧ Labelled p) :=
  have hidle : ∀ i, ((cacheIdle c₀).procs i).Always (fun p => CacheSettled x p ∧ Labelled p) :=
    fun _ => And.intro (fun _ _ _ => trivial) (labelled_ret _)
  Pool.performs_always hidle (fun _ call _ => always_cacheProgram hx service call) j

end Runs

/-- When a revocation of a session returns, the session stays in the set for the
rest of the day, in every interleaving, exactly if no refresh in flight has
passed it. -/
theorem revoked_session_cached_iff (service : Service) (x : String) (hx : x ≠ "")
    (c₀ : CacheState) (hc₀ : UniqueSessions c₀.store) (before : CacheActs) (i : Nat)
    (sessionIds : List String) (since : Nat) (hmem : x ∈ sessionIds) :
    let c := (cacheIdle c₀).performs (cacheProgram service) before
    (c.procs i).next? = some (.mark sessionIds) →
      (∀ d ∈ c.state.store.sessions, d.sessionId = x → ∀ revokedAt, d.revokedAt = some revokedAt →
        since ≤ revokedAt) →
      (∀ j, NextInDay since (c.procs j)) →
      ((∀ after, StartsInDay service since after →
          ((c.turn i).performs (cacheProgram service) after).state.isSessionRevoked x = true) ↔
        ∀ j, ¬Stale x (c.procs j)) := by
  intro c hmark hsince hday
  have halways := always_performs service hx c₀ before
  have hended := ended_at_mark hc₀ before hmark hmem
  obtain ⟨r, hi⟩ := (halways i).here.2.1 sessionIds hmark
  have hturn : c.turn i = ⟨{ c.state with
      revokedSessionIds := c.state.revokedSessionIds ++ sessionIds },
      Function.update c.procs i (.ret r)⟩ := Pool.turn_of_step hi
  constructor
  · intro hcached j hstale
    unfold Stale at hstale
    split at hstale
    · rename_i now collected remaining hnext
      have hj := (halways j).here.2.2 now collected remaining hnext
      have hij : j ≠ i := by
        intro heq
        rw [heq] at hnext
        rw [hmark] at hnext
        cases hnext
      have hkept : (c.turn i).procs j = refreshFrom now collected remaining := by
        rw [hturn]
        show Function.update c.procs i (.ret r) j = _
        rw [Function.update_of_ne hij]
        exact hj
      obtain ⟨collected', hdropped, hstate⟩ :=
        Pool.performs_sweep (cacheProgram service) hkept hstale.1 fun _ => hstale.2
      have hstill := hcached (List.replicate (remaining.length + 1) (.turn j)) ?_
      · rw [hstate] at hstill
        exact hdropped (List.contains_iff_mem.mp hstill)
      intro i' call hstart
      have heq := List.eq_of_mem_replicate hstart
      cases heq
    · exact hstale
  · intro hquiet after hafter
    have hcached : Pool.Kept (Cached x since) (fun _ _ => True) (c.turn i) := by
      rw [hturn]
      refine ⟨⟨List.mem_append_right _ hmem, hended.1, fun d hd hid => ?_⟩, fun j => ?_⟩
      · obtain ⟨hinactive, hsome⟩ := hended.2 d hd hid
        obtain ⟨revokedAt, hrevoked⟩ := Option.isSome_iff_exists.mp hsome
        exact ⟨hinactive, revokedAt, hrevoked, hsince d hd hid revokedAt hrevoked⟩
      · by_cases hj : j = i
        · subst hj
          show Keeps _ _ (Function.update c.procs j (.ret r) j)
          rw [Function.update_self]
          trivial
        · show Keeps _ _ (Function.update c.procs i (.ret r) j)
          rw [Function.update_of_ne hj]
          exact (halways j).here.1 since (hday j) (hquiet j)
    have hend := hcached.performs fun j call hstart =>
      (always_cacheProgram hx service call).here.1 since (hafter j call hstart)
        (not_stale_cacheProgram service call)
    exact List.contains_iff_mem.mpr hend.state.1

/-- A session of `sampleLogin`, and an empty set. -/
def sampleCache : CacheState :=
  ⟨⟨[], [drawnSession sampleService sampleLogin "family"]⟩, []⟩

def sampleRevocation : CacheCall := .auth (.revokeSession "session" "logout" 5)

def quietRevocation : CacheActs := [.start 0 sampleRevocation, .turn 0, .turn 0]

theorem refresh_after_revocation :
    ((((cacheIdle sampleCache).performs (cacheProgram sampleService) quietRevocation).turn
      0).performs (cacheProgram sampleService)
        [.start 1 (.refresh 10), .turn 1, .turn 1, .turn 1]).state.isSessionRevoked "session" =
      true := by
  refine (revoked_session_cached_iff sampleService "session" (by decide) sampleCache
    (List.nodup_singleton _) quietRevocation 0 ["session"] 5 List.mem_cons_self rfl ?_ ?_).mpr
    ?_ _ ?_
  · intro d hd _ revokedAt hrevoked
    have hdoc : d = revoked 5 "logout" (drawnSession sampleService sampleLogin "family") :=
      List.mem_singleton.mp hd
    rw [hdoc] at hrevoked
    have hfive : 5 = revokedAt := Option.some.inj hrevoked
    omega
  · intro j l hl
    match j with
    | 0 =>
      cases hl
      trivial
    | _ + 1 => cases hl
  · intro j
    match j with
    | 0 => exact id
    | _ + 1 => exact id
  · intro i call hstart l hl
    have hcall : call = .refresh 10 := by
      simp only [List.mem_cons, Pool.Act.start.injEq, reduceCtorEq, List.not_mem_nil, or_false]
        at hstart
      exact hstart.2
    rw [hcall] at hl
    cases hl
    show 10 < 5 + days 1
    decide

def overtakenRevocation : CacheActs :=
  [.start 1 (.refresh 0), .turn 1, .turn 1, .start 0 sampleRevocation, .turn 0, .turn 0]

/-- The refresh ends with the set it read before. -/
theorem refresh_drops_revocation :
    ¬∀ (service : Service) (x : String), x ≠ "" → ∀ c₀ : CacheState, UniqueSessions c₀.store →
      ∀ (before : CacheActs) (i : Nat) (sessionIds : List String) (since : Nat),
      x ∈ sessionIds →
      let c := (cacheIdle c₀).performs (cacheProgram service) before
      (c.procs i).next? = some (.mark sessionIds) →
        (∀ d ∈ c.state.store.sessions, d.sessionId = x →
          ∀ revokedAt, d.revokedAt = some revokedAt → since ≤ revokedAt) →
        (∀ j, NextInDay since (c.procs j)) →
        ∀ after, StartsInDay service since after →
          ((c.turn i).performs (cacheProgram service) after).state.isSessionRevoked x = true := by
  intro hclaim
  have hcached := hclaim sampleService "session" (by decide) sampleCache (List.nodup_singleton _)
    overtakenRevocation 0 ["session"] 5 List.mem_cons_self rfl ?_ ?_ [.turn 1] ?_
  · exact absurd hcached (by decide)
  · intro d hd _ revokedAt hrevoked
    have hdoc : d = revoked 5 "logout" (drawnSession sampleService sampleLogin "family") :=
      List.mem_singleton.mp hd
    rw [hdoc] at hrevoked
    have hfive : 5 = revokedAt := Option.some.inj hrevoked
    omega
  · intro j l hl
    match j with
    | 0 =>
      cases hl
      trivial
    | 1 =>
      cases hl
      show 0 < 5 + days 1
      decide
    | _ + 2 => cases hl
  · intro i call hstart
    cases List.mem_singleton.mp hstart

end Sentora.Auth
