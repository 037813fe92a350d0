import Mathlib.Tactic.NormNum
import Sentora.Limits.RateLimiter

/-!
# Rate limits of API keys

The two limiters of a key in `domains/api_keys/middleware.py`, one for a minute and
one for an hour, in dictionaries from which idle entries are evicted.  Nothing else
runs between the look-ups and the answer, so that an authentication has one time.
`authenticateApiKey` is given the answer as `limited`.

The limiter of the minute records a request before the limiter of the hour is asked.
A request which only the hour refuses has then used up the minute.
-/

namespace Sentora.ApiKeys

open Lib Limits

/-- A request with a key that is otherwise valid. -/
structure Request where
  keyId : String
  rateLimitPerMinute : Nat
  rateLimitPerHour : Nat
  now : ℚ
deriving DecidableEq

def Request.call (r : Request) : Limits.Call String := ⟨r.keyId, r.now, r.now⟩

abbrev Store := String → Option (RateLimiter String × ℚ)

def limiterTtlSeconds : ℚ := 3600

def limiterCleanupInterval : Nat := 100

structure Limiters where
  minute : Store := fun _ => none
  hour : Store := fun _ => none
  accessCount : Nat := 0

namespace Store

def evict (now : ℚ) (store : Store) : Store := fun key =>
  (store key).filter fun entry => !decide (entry.2 < now - limiterTtlSeconds)

def limiter (store : Store) (keyId : String) (limit : Nat) (window : ℚ) : RateLimiter String :=
  match store keyId with
  | none => { max := limit, window }
  | some (limiter, _) => if limiter.max = limit then limiter else { max := limit, window }

def put (store : Store) (keyId : String) (limiter : RateLimiter String) (now : ℚ) : Store :=
  Function.update store keyId (some (limiter, now))

end Store

namespace Limiters

def evictStaleLimiters (now : ℚ) (s : Limiters) : Limiters :=
  { s with minute := s.minute.evict now, hour := s.hour.evict now }

/-- The count of the look-ups, and the eviction at every hundredth. -/
def access (now : ℚ) (s : Limiters) : Limiters :=
  let s := { s with accessCount := s.accessCount + 1 }
  if s.accessCount % limiterCleanupInterval = 0 then s.evictStaleLimiters now else s

/-- The rate limiting of `_authenticate_api_key`, and whether the request is refused. -/
def limited (r : Request) (s : Limiters) : Limiters × Bool :=
  let s := s.access r.now
  let minuteLimiter := s.minute.limiter r.keyId r.rateLimitPerMinute 60
  let hourLimiter := s.hour.limiter r.keyId r.rateLimitPerHour 3600
  let (minuteLimiter, refused) := minuteLimiter.isLimited r.call
  let minute := s.minute.put r.keyId minuteLimiter r.now
  if refused then
    ({ s with minute, hour := s.hour.put r.keyId hourLimiter r.now }, true)
  else
    let (hourLimiter, refused) := hourLimiter.isLimited r.call
    ({ s with minute, hour := s.hour.put r.keyId hourLimiter r.now }, refused)

/-- The limiters, and the requests that have been let through. -/
structure Session where
  limiters : Limiters := {}
  letThrough : List Request := []

def Session.receive (s : Session) (r : Request) : Session :=
  let (limiters, refused) := s.limiters.limited r
  { limiters, letThrough := if refused then s.letThrough else s.letThrough ++ [r] }

def after (requests : List Request) : Session := requests.foldl Session.receive {}

def timesOf (keyId : String) (requests : List Request) : List ℚ :=
  (requests.filter fun r => r.keyId = keyId).map Request.now

/-- Fewer than `max` of the times are in the window. -/
def hasRoom (max : Nat) (window : ℚ) (log : List ℚ) (now : ℚ) : Bool :=
  decide ((recent (fun now => now - window) now log).length < max)

end Limiters

namespace Store

section Holds

variable {store : Store} {keyId other : String} {limit : Nat} {window now t u : ℚ} {log : List ℚ}
  {l : RateLimiter String}

/-- The limiter of the key stands for the log, or there is none and nothing counts. -/
structure Holds (store : Store) (keyId : String) (limit : Nat) (window : ℚ) (log : List ℚ)
    (t : ℚ) : Prop where
  absent : store keyId = none → SameFrom (fun u => u - window) t [] log
  found : ∀ limiter used, store keyId = some (limiter, used) →
    (limiter.max = limit ∧ limiter.window = window) ∧ limiter.Tracks keyId log t ∧
      ∀ x ∈ limiter.hits keyId, x ≤ used

theorem holds_empty : Holds (fun _ => none) keyId limit window [] t :=
  ⟨fun _ _ _ => rfl, fun _ _ h => nomatch h⟩

theorem Holds.mono (h : store.Holds keyId limit window log t) (htu : t ≤ u) :
    store.Holds keyId limit window log u := by
  refine ⟨fun hnone => (h.absent hnone).mono htu, fun limiter used hsome => ?_⟩
  obtain ⟨hsettings, htracks, hused⟩ := h.found limiter used hsome
  exact ⟨hsettings, htracks.mono htu, hused⟩

theorem Holds.evict (h : store.Holds keyId limit window log t) (hwindow : window ≤ 3600) :
    (store.evict t).Holds keyId limit window log t := by
  constructor
  · intro hnone
    cases hentry : store keyId with
    | none => exact h.absent hentry
    | some entry =>
      obtain ⟨limiter, used⟩ := entry
      obtain ⟨⟨-, hsize⟩, htracks, hused⟩ := h.found limiter used hentry
      have hidle : used < t - 3600 := by
        by_contra hrecent
        simp [Store.evict, hentry, limiterTtlSeconds, hrecent] at hnone
      have hcutoff : limiter.cutoff = fun u => u - window := by
        funext u
        rw [RateLimiter.cutoff, hsize]
      have hold : ∀ x ∈ limiter.hits keyId, x ≤ limiter.cutoff t := by
        intro x hx
        rw [hcutoff]
        exact ((hused x hx).trans hidle.le).trans (sub_le_sub_left hwindow t)
      have hdropped := (Stands.drop htracks RateLimiter.cutoff_mono hold).same
      rwa [hcutoff] at hdropped
  · intro limiter used hsome
    exact h.found limiter used (Option.filter_eq_some_iff.mp hsome).1

theorem Holds.limiter (h : store.Holds keyId limit window log t) :
    ((store.limiter keyId limit window).max = limit ∧
      (store.limiter keyId limit window).window = window) ∧
      (store.limiter keyId limit window).Tracks keyId log t := by
  unfold Store.limiter
  cases hentry : store keyId with
  | none =>
    exact ⟨⟨rfl, rfl⟩, h.absent hentry, List.Pairwise.nil, fun _ hx => nomatch hx⟩
  | some entry =>
    obtain ⟨limiter, used⟩ := entry
    obtain ⟨hsettings, htracks, -⟩ := h.found limiter used hentry
    dsimp only
    rw [if_pos hsettings.1]
    exact ⟨hsettings, htracks⟩

theorem holds_put (hsettings : l.max = limit ∧ l.window = window)
    (htracks : l.Tracks keyId log now) :
    (store.put keyId l now).Holds keyId limit window log now := by
  constructor
  · intro hnone
    simp [Store.put] at hnone
  · intro limiter used hsome
    obtain ⟨rfl, rfl⟩ : l = limiter ∧ now = used := by
      simpa [Store.put] using hsome
    exact ⟨hsettings, htracks, htracks.past⟩

theorem Holds.put_of_ne (h : store.Holds keyId limit window log t) (hne : keyId ≠ other) :
    (store.put other l now).Holds keyId limit window log t := by
  have hsame : store.put other l now keyId = store keyId := Function.update_of_ne hne ..
  exact ⟨fun hnone => h.absent (hsame ▸ hnone), fun limiter used hsome =>
    h.found limiter used (hsame ▸ hsome)⟩

theorem Holds.consult {r : Request} (h : store.Holds r.keyId limit window log r.now) :
    let l := store.limiter r.keyId limit window
    ((l.isLimited r.call).2 = !Limiters.hasRoom limit window log r.now) ∧
      (store.put r.keyId (l.isLimited r.call).1 r.now).Holds r.keyId limit window
        (if Limiters.hasRoom limit window log r.now then log ++ [r.now] else log) r.now ∧
      (store.put r.keyId l r.now).Holds r.keyId limit window log r.now := by
  intro l
  obtain ⟨⟨hmax, hwindow⟩, htracks⟩ := h.limiter
  have hfull : l.Full log r.now ↔ Limiters.hasRoom limit window log r.now = false := by
    unfold RateLimiter.Full Limiters.hasRoom
    rw [decide_eq_false_iff_not, Nat.not_lt, hmax]
    unfold RateLimiter.cutoff
    rw [hwindow]
  have hlimited : (l.isLimited r.call).2 = !Limiters.hasRoom limit window log r.now := by
    rw [Bool.eq_iff_iff, Bool.not_eq_true', ← hfull]
    exact RateLimiter.Tracks.isLimited_iff htracks le_rfl
  have hkept : (l.isLimited r.call).1.Tracks r.keyId
      (if (l.isLimited r.call).2 then log else log ++ [r.now]) r.now :=
    RateLimiter.Tracks.isLimited htracks le_rfl le_rfl
  obtain ⟨hmax', hwindow'⟩ : (l.isLimited r.call).1.max = l.max ∧
      (l.isLimited r.call).1.window = l.window := RateLimiter.isLimited_settings
  refine ⟨hlimited, holds_put ⟨hmax'.trans hmax, hwindow'.trans hwindow⟩ ?_,
    holds_put ⟨hmax, hwindow⟩ htracks⟩
  rw [hlimited] at hkept
  cases hroom : Limiters.hasRoom limit window log r.now with
  | true => simpa [hroom] using hkept
  | false => simpa [hroom] using hkept

end Holds

end Store

namespace Limiters

section Exact

variable {s : Limiters} {keyId : String} {perMinute perHour : Nat} {t u : ℚ} {r : Request}
  {requests : List Request} {minuteLog hourLog : List ℚ}

structure Hold (s : Limiters) (keyId : String) (perMinute perHour : Nat)
    (minuteLog hourLog : List ℚ)
    (t : ℚ) : Prop where
  minute : s.minute.Holds keyId perMinute 60 minuteLog t
  hour : s.hour.Holds keyId perHour 3600 hourLog t

theorem Hold.mono (h : s.Hold keyId perMinute perHour minuteLog hourLog t) (htu : t ≤ u) :
    s.Hold keyId perMinute perHour minuteLog hourLog u :=
  ⟨h.minute.mono htu, h.hour.mono htu⟩

theorem Hold.access (h : s.Hold keyId perMinute perHour minuteLog hourLog t) :
    (s.access t).Hold keyId perMinute perHour minuteLog hourLog t := by
  unfold Limiters.access
  dsimp only
  split
  · exact ⟨h.minute.evict (by norm_num), h.hour.evict le_rfl⟩
  · exact ⟨h.minute, h.hour⟩

/-- The requests of other keys. -/
theorem Hold.limited_of_ne (h : s.Hold keyId perMinute perHour minuteLog hourLog r.now)
    (hne : keyId ≠ r.keyId) :
    (s.limited r).1.Hold keyId perMinute perHour minuteLog hourLog r.now := by
  have hnow := h.access
  unfold limited
  dsimp only
  split
  · exact ⟨hnow.minute.put_of_ne hne, hnow.hour.put_of_ne hne⟩
  · exact ⟨hnow.minute.put_of_ne hne, hnow.hour.put_of_ne hne⟩

theorem Hold.limited (h : s.Hold r.keyId r.rateLimitPerMinute r.rateLimitPerHour minuteLog hourLog
      r.now) :
    ((s.limited r).2 = !(hasRoom r.rateLimitPerMinute 60 minuteLog r.now &&
      hasRoom r.rateLimitPerHour 3600 hourLog r.now)) ∧
    (s.limited r).1.Hold r.keyId r.rateLimitPerMinute r.rateLimitPerHour
      (if hasRoom r.rateLimitPerMinute 60 minuteLog r.now then minuteLog ++ [r.now] else minuteLog)
      (if (s.limited r).2 then hourLog else hourLog ++ [r.now]) r.now := by
  obtain ⟨hrefused, hput, -⟩ := h.access.minute.consult
  obtain ⟨hrefused', hput', hleft⟩ := h.access.hour.consult
  cases hroom : hasRoom r.rateLimitPerMinute 60 minuteLog r.now with
  | false =>
    rw [hroom, Bool.not_false] at hrefused
    rw [hroom] at hput
    have hlimited : (s.limited r).2 = true := by
      unfold Limiters.limited
      dsimp only
      rw [if_pos hrefused]
    have hstores : (s.limited r).1.Hold r.keyId r.rateLimitPerMinute r.rateLimitPerHour minuteLog
        hourLog r.now := by
      unfold Limiters.limited
      dsimp only
      rw [if_pos hrefused]
      exact ⟨hput, hleft⟩
    rw [hlimited]
    exact ⟨rfl, hstores⟩
  | true =>
    rw [hroom] at hrefused hput
    have hasked : ¬((s.access r.now).minute.limiter r.keyId r.rateLimitPerMinute 60 |>.isLimited
        r.call).2 = true := by
      rw [hrefused]
      exact Bool.false_ne_true
    have hlimited : (s.limited r).2 = !hasRoom r.rateLimitPerHour 3600 hourLog r.now := by
      unfold Limiters.limited
      dsimp only
      rw [if_neg hasked]
      exact hrefused'
    have hstores : (s.limited r).1.Hold r.keyId r.rateLimitPerMinute r.rateLimitPerHour
        (minuteLog ++ [r.now]) (if hasRoom r.rateLimitPerHour 3600 hourLog r.now then
          hourLog ++ [r.now] else hourLog) r.now := by
      unfold Limiters.limited
      dsimp only
      rw [if_neg hasked]
      exact ⟨hput, hput'⟩
    rw [hlimited]
    refine ⟨rfl, ?_⟩
    cases hroom' : hasRoom r.rateLimitPerHour 3600 hourLog r.now with
    | true => simpa [hroom'] using hstores
    | false => simpa [hroom'] using hstores

end Exact

section Sessions

variable {s : Session} {keyId : String} {perMinute perHour : Nat} {t : ℚ} {r : Request}
  {requests before : List Request} {log : List ℚ}

def Constant (keyId : String) (perMinute perHour : Nat) (requests : List Request) : Prop :=
  ∀ r ∈ requests, r.keyId = keyId →
    r.rateLimitPerMinute = perMinute ∧ r.rateLimitPerHour = perHour

/-- The limiter of the minute stands for all requests that it had room for, the limiter
of the hour for those that were let through, which are among them. -/
structure Session.Exact (s : Session) (keyId : String) (perMinute perHour : Nat)
    (requests : List Request) (t : ℚ) : Prop where
  hold : s.limiters.Hold keyId perMinute perHour
    (admitted (hasRoom perMinute 60) (timesOf keyId requests)) (timesOf keyId s.letThrough) t
  among : (timesOf keyId s.letThrough).Sublist
    (admitted (hasRoom perMinute 60) (timesOf keyId requests))

theorem timesOf_append_self :
    timesOf r.keyId (requests ++ [r]) = timesOf r.keyId requests ++ [r.now] := by
  simp [timesOf]

theorem timesOf_append_of_ne (hne : keyId ≠ r.keyId) :
    timesOf keyId (requests ++ [r]) = timesOf keyId requests := by
  simp [timesOf, hne.symm]

theorem after_append : after (requests ++ [r]) = (after requests).receive r := List.foldl_append ..

theorem letThrough_receive : (s.receive r).letThrough =
    if (s.limiters.limited r).2 then s.letThrough else s.letThrough ++ [r] :=
  rfl

theorem timesOf_receive_self : timesOf r.keyId (s.receive r).letThrough =
    if (s.limiters.limited r).2 then timesOf r.keyId s.letThrough
    else timesOf r.keyId s.letThrough ++ [r.now] := by
  rw [letThrough_receive]
  split
  · rfl
  · exact timesOf_append_self

theorem timesOf_receive_of_ne (hne : keyId ≠ r.keyId) :
    timesOf keyId (s.receive r).letThrough = timesOf keyId s.letThrough := by
  rw [letThrough_receive]
  split
  · rfl
  · exact timesOf_append_of_ne hne

theorem Session.Exact.receive_self
    (h : s.Exact r.keyId r.rateLimitPerMinute r.rateLimitPerHour requests r.now) :
    (s.receive r).Exact r.keyId r.rateLimitPerMinute r.rateLimitPerHour (requests ++ [r])
      r.now := by
  obtain ⟨hlimited, hhold⟩ := h.hold.limited
  constructor
  · rw [timesOf_append_self, admitted_append, timesOf_receive_self]
    exact hhold
  · rw [timesOf_append_self, admitted_append, timesOf_receive_self, hlimited]
    cases hasRoom r.rateLimitPerMinute 60
        (admitted (hasRoom r.rateLimitPerMinute 60) (timesOf r.keyId requests)) r.now with
    | false => exact h.among
    | true =>
      cases hasRoom r.rateLimitPerHour 3600 (timesOf r.keyId s.letThrough) r.now with
      | false => exact h.among.trans (List.sublist_append_left ..)
      | true => exact h.among.append (List.Sublist.refl _)

theorem Session.Exact.receive_of_ne (h : s.Exact keyId perMinute perHour requests r.now)
    (hne : keyId ≠ r.keyId) :
    (s.receive r).Exact keyId perMinute perHour (requests ++ [r]) r.now := by
  constructor
  · rw [timesOf_append_of_ne hne, timesOf_receive_of_ne hne]
    exact h.hold.limited_of_ne hne
  · rw [timesOf_append_of_ne hne, timesOf_receive_of_ne hne]
    exact h.among

theorem exact_after (hconstant : Constant keyId perMinute perHour requests)
    (hordered : requests.Pairwise fun first second => first.now ≤ second.now)
    (ht : ∀ r ∈ requests, r.now ≤ t) :
    (after requests).Exact keyId perMinute perHour requests t := by
  induction requests using List.reverseRecOn generalizing t with
  | nil => exact ⟨⟨Store.holds_empty, Store.holds_empty⟩, List.Sublist.slnil⟩
  | append_singleton requests r ih =>
    obtain ⟨hfirst, -, hlast⟩ := List.pairwise_append.mp hordered
    have hbefore : (after requests).Exact keyId perMinute perHour requests r.now :=
      ih (fun r' hr' => hconstant r' (List.mem_append_left _ hr')) hfirst
        fun r' hr' => hlast r' hr' r List.mem_cons_self
    have hr : r ∈ requests ++ [r] := List.mem_append_right _ List.mem_cons_self
    have hafter : ((after requests).receive r).Exact keyId perMinute perHour (requests ++ [r])
        r.now := by
      by_cases hkey : keyId = r.keyId
      · subst hkey
        obtain ⟨rfl, rfl⟩ := hconstant r hr rfl
        exact hbefore.receive_self
      · exact hbefore.receive_of_ne hkey
    rw [after_append]
    exact ⟨hafter.hold.mono (ht r hr), hafter.among⟩

end Sessions

end Limiters
end Sentora.ApiKeys
