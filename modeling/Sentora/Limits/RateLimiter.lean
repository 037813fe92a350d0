import Mathlib.Algebra.Order.Ring.Rat
import Sentora.Lib.SlidingLog

/-!
# The rate limiter

`RateLimiter` (`utils/rate_limit.py`).  An address that has no list in the dictionary
reads as one whose list is empty.  The clock is read once at the start of a call, and
again where the call cleans up.
-/

namespace Sentora.Limits

open Lib

structure RateLimiter (ι : Type) where
  max : Nat
  window : ℚ
  hits : ι → List ℚ := fun _ => []
  requestCount : Nat := 0

/-- The address, and what the clock shows at the start and when the call cleans up. -/
structure Call (ι : Type) where
  ip : ι
  now : ℚ
  later : ℚ
deriving DecidableEq

namespace RateLimiter

variable {ι : Type} [DecidableEq ι]

omit [DecidableEq ι] in
def cutoff (s : RateLimiter ι) (now : ℚ) : ℚ := now - s.window

def cleanup (now : ℚ) (s : RateLimiter ι) : RateLimiter ι :=
  { s with
    hits := fun ip =>
      match (s.hits ip).getLast? with
      | none => []
      | some newest => if newest ≤ s.cutoff now then [] else s.hits ip }

def setHits (ip : ι) (hits : List ℚ) (s : RateLimiter ι) : RateLimiter ι :=
  { s with hits := Function.update s.hits ip hits }

def record (call : Call ι) (s : RateLimiter ι) : RateLimiter ι :=
  let s := { s.setHits call.ip (s.hits call.ip ++ [call.now]) with
    requestCount := s.requestCount + 1 }
  if s.requestCount % 200 = 0 then s.cleanup call.later else s

/-- The list of the address without its old times. -/
def refresh (call : Call ι) (s : RateLimiter ι) : RateLimiter ι :=
  s.setHits call.ip (recent s.cutoff call.now (s.hits call.ip))

def isLimited (call : Call ι) (s : RateLimiter ι) : RateLimiter ι × Bool :=
  let s := s.refresh call
  if s.max ≤ (s.hits call.ip).length then (s, true) else (s.record call, false)

/-- The limiter, and the calls that it has let through. -/
structure Session (ι : Type) where
  limiter : RateLimiter ι
  letThrough : List (Call ι) := []

def Session.receive (s : Session ι) (call : Call ι) : Session ι :=
  let (limiter, limited) := s.limiter.isLimited call
  { limiter, letThrough := if limited then s.letThrough else s.letThrough ++ [call] }

def after (max : Nat) (window : ℚ) (calls : List (Call ι)) : Session ι :=
  calls.foldl Session.receive { limiter := { max, window } }

/-- The clock does not run backwards. -/
structure Chronological (calls : List (Call ι)) : Prop where
  within : ∀ call ∈ calls, call.now ≤ call.later
  across : calls.Pairwise fun first second => first.later ≤ second.now

/-- The calls of the address at times in `(now - window, now]`. -/
def inWindow (window : ℚ) (call : Call ι) (calls : List (Call ι)) : Nat :=
  calls.countP fun c => c.ip = call.ip ∧ call.now - window < c.now ∧ c.now ≤ call.now

section Tracks

variable {s : RateLimiter ι} {ip other : ι} {call : Call ι} {log : List ℚ} {t u : ℚ}
variable {hits : List ℚ}

/-- From `t` on, the list of the address stands for the log. -/
def Tracks (s : RateLimiter ι) (ip : ι) (log : List ℚ) (t : ℚ) : Prop :=
  Stands s.cutoff t (s.hits ip) log

/-- As many times of the log as are allowed are in the window. -/
def Full (s : RateLimiter ι) (log : List ℚ) (now : ℚ) : Prop :=
  s.max ≤ (recent s.cutoff now log).length

instance (s : RateLimiter ι) (log : List ℚ) (now : ℚ) : Decidable (s.Full log now) :=
  inferInstanceAs (Decidable (_ ≤ _))

omit [DecidableEq ι] in
theorem cutoff_mono : Monotone s.cutoff := fun _ _ h => sub_le_sub_right h _

omit [DecidableEq ι] in
theorem tracks_new {max : Nat} {window : ℚ} : Tracks ({ max, window } : RateLimiter ι) ip [] t :=
  stands_nil

omit [DecidableEq ι] in
theorem Tracks.mono (h : Tracks s ip log t) (htu : t ≤ u) : Tracks s ip log u := Stands.mono h htu

omit [DecidableEq ι] in
/-- A list that is emptied has no time left that counts. -/
theorem Tracks.cleanup (h : Tracks s ip log t) (htu : t ≤ u) : Tracks (s.cleanup u) ip log u := by
  have hu : Stands s.cutoff u (s.hits ip) log := h.mono htu
  show Stands s.cutoff u (match (s.hits ip).getLast? with
    | none => []
    | some newest => if newest ≤ s.cutoff u then [] else s.hits ip) log
  cases hlast : (s.hits ip).getLast? with
  | none =>
    rw [List.getLast?_eq_none_iff.mp hlast] at hu
    exact hu
  | some newest =>
    dsimp only
    split
    · rename_i hold
      exact hu.drop cutoff_mono (hu.le_of_getLast? hlast hold)
    · exact hu

theorem hits_setHits : (s.setHits ip hits).hits ip = hits :=
  Function.update_self ..

theorem hits_setHits_of_ne (hne : other ≠ ip) :
    (s.setHits ip hits).hits other = s.hits other :=
  Function.update_of_ne hne ..

theorem Tracks.setHits (h : Stands s.cutoff t hits log) :
    Tracks (s.setHits ip hits) ip log t := by
  show Stands s.cutoff t ((s.setHits ip hits).hits ip) log
  rw [hits_setHits]
  exact h

theorem Tracks.setHits_of_ne (h : Tracks s other log t) (hne : other ≠ ip) :
    Tracks (s.setHits ip hits) other log t := by
  show Stands s.cutoff t ((s.setHits ip hits).hits other) log
  rw [hits_setHits_of_ne hne]
  exact h

/-- The clean-up does not matter to an address. -/
theorem Tracks.record_of (hlater : call.now ≤ call.later)
    (h : Tracks (s.setHits call.ip (s.hits call.ip ++ [call.now])) ip log call.now) :
    Tracks (s.record call) ip log call.later := by
  show Tracks (if _ then _ else _) ip log call.later
  split
  · exact Tracks.cleanup (s := { s.setHits _ _ with requestCount := _ }) h hlater
  · exact Tracks.mono (s := { s.setHits _ _ with requestCount := _ }) h hlater

theorem Tracks.refresh (h : Tracks s call.ip log t) (ht : t ≤ call.now) :
    Tracks (s.refresh call) call.ip log call.now :=
  Tracks.setHits ((h.mono ht).recent cutoff_mono)

theorem Tracks.refresh_of_ne (h : Tracks s other log t) (hne : other ≠ call.ip)
    (ht : t ≤ call.now) : Tracks (s.refresh call) other log call.now :=
  (h.setHits_of_ne hne).mono ht

theorem isLimited_of_full (h : s.Full (s.hits call.ip) call.now) :
    s.isLimited call = (s.refresh call, true) := by
  refine if_pos ?_
  rw [refresh, hits_setHits]
  exact h

theorem isLimited_of_not_full (h : ¬s.Full (s.hits call.ip) call.now) :
    s.isLimited call = ((s.refresh call).record call, false) := by
  refine if_neg ?_
  rw [refresh, hits_setHits]
  exact h

omit [DecidableEq ι] in
theorem Tracks.full_iff (h : Tracks s ip log t) (htu : t ≤ u) :
    s.Full (s.hits ip) u ↔ s.Full log u := by
  unfold Full
  rw [h.same u htu]

theorem Tracks.isLimited_iff (h : Tracks s call.ip log t) (ht : t ≤ call.now) :
    (s.isLimited call).2 = true ↔ s.Full log call.now := by
  rw [← h.full_iff ht]
  by_cases hfull : s.Full (s.hits call.ip) call.now
  · rw [isLimited_of_full hfull]
    exact iff_of_true rfl hfull
  · rw [isLimited_of_not_full hfull]
    exact iff_of_false Bool.false_ne_true hfull

theorem Tracks.isLimited (h : Tracks s call.ip log t) (ht : t ≤ call.now)
    (hlater : call.now ≤ call.later) :
    Tracks (s.isLimited call).1 call.ip
      (if (s.isLimited call).2 then log else log ++ [call.now]) call.later := by
  have hnow := h.refresh ht
  by_cases hfull : s.Full (s.hits call.ip) call.now
  · rw [isLimited_of_full hfull, if_pos rfl]
    exact hnow.mono hlater
  · rw [isLimited_of_not_full hfull, if_neg Bool.false_ne_true]
    exact Tracks.record_of hlater (Tracks.setHits (Stands.record hnow))

theorem Tracks.isLimited_of_ne (h : Tracks s other log t) (hne : other ≠ call.ip)
    (ht : t ≤ call.now) (hlater : call.now ≤ call.later) :
    Tracks (s.isLimited call).1 other log call.later := by
  have hnow := h.refresh_of_ne hne ht
  by_cases hfull : s.Full (s.hits call.ip) call.now
  · rw [isLimited_of_full hfull]
    exact hnow.mono hlater
  · rw [isLimited_of_not_full hfull]
    exact Tracks.record_of hlater (hnow.setHits_of_ne hne)

theorem isLimited_settings :
    (s.isLimited call).1.max = s.max ∧ (s.isLimited call).1.window = s.window := by
  by_cases hfull : s.Full (s.hits call.ip) call.now
  · rw [isLimited_of_full hfull]
    exact ⟨rfl, rfl⟩
  · rw [isLimited_of_not_full hfull]
    unfold record
    dsimp only
    split
    · exact ⟨rfl, rfl⟩
    · exact ⟨rfl, rfl⟩

end Tracks

def timesOf (ip : ι) (calls : List (Call ι)) : List ℚ :=
  (calls.filter fun c => c.ip = ip).map Call.now

section Sessions

variable {s : Session ι} {call : Call ι} {calls : List (Call ι)} {max : Nat} {window t : ℚ} {ip : ι}

/-- The limiter stands for the calls that it has let through, all of them in the past. -/
structure Session.Exact (s : Session ι) (max : Nat) (window t : ℚ) : Prop where
  max_eq : s.limiter.max = max
  window_eq : s.limiter.window = window
  tracks : ∀ ip, s.limiter.Tracks ip (timesOf ip s.letThrough) t
  past : ∀ c ∈ s.letThrough, c.now ≤ t

theorem timesOf_append_self :
    timesOf call.ip (calls ++ [call]) = timesOf call.ip calls ++ [call.now] := by
  simp [timesOf]

theorem timesOf_append_of_ne (hne : ip ≠ call.ip) :
    timesOf ip (calls ++ [call]) = timesOf ip calls := by
  simp [timesOf, hne.symm]

theorem letThrough_receive :
    (s.receive call).letThrough =
      if (s.limiter.isLimited call).2 then s.letThrough else s.letThrough ++ [call] :=
  rfl

theorem Session.Exact.receive (h : s.Exact max window t) (ht : t ≤ call.now)
    (hlater : call.now ≤ call.later) : (s.receive call).Exact max window call.later := by
  have hpast : ∀ c ∈ s.letThrough, c.now ≤ call.later := fun c hc =>
    (h.past c hc).trans (ht.trans hlater)
  refine ⟨isLimited_settings.1.trans h.max_eq, isLimited_settings.2.trans h.window_eq,
    fun ip => ?_, ?_⟩
  · by_cases hip : ip = call.ip
    · subst hip
      have htracks := (h.tracks call.ip).isLimited ht hlater
      rw [letThrough_receive]
      split at htracks
      · rwa [if_pos ‹_›]
      · rwa [if_neg ‹_›, timesOf_append_self]
    · have htracks := (h.tracks ip).isLimited_of_ne hip ht hlater
      rw [letThrough_receive]
      split
      · exact htracks
      · rwa [timesOf_append_of_ne hip]
  · intro c hc
    have hmem : c ∈ s.letThrough ∨ c = call := by
      rw [letThrough_receive] at hc
      split at hc
      · exact Or.inl hc
      · exact (List.mem_append.mp hc).imp_right List.mem_singleton.mp
    rcases hmem with hold | rfl
    · exact hpast c hold
    · exact hlater

omit [DecidableEq ι] in
theorem chronological_append :
    Chronological (calls ++ [call]) ↔ Chronological calls ∧ call.now ≤ call.later ∧
      ∀ c ∈ calls, c.later ≤ call.now := by
  constructor
  · intro h
    obtain ⟨hfirst, -, hlast⟩ := List.pairwise_append.mp h.across
    refine ⟨⟨fun c hc => h.within c (List.mem_append_left _ hc), hfirst⟩, ?_, fun c hc => ?_⟩
    · exact h.within call (List.mem_append_right _ List.mem_cons_self)
    · exact hlast c hc call List.mem_cons_self
  · rintro ⟨h, hlater, hlast⟩
    refine ⟨fun c hc => ?_, List.pairwise_append.mpr ⟨h.across, List.pairwise_singleton .., ?_⟩⟩
    · rcases List.mem_append.mp hc with hc | hc
      · exact h.within c hc
      · rwa [List.mem_singleton.mp hc]
    · intro c hc d hd
      rw [List.mem_singleton.mp hd]
      exact hlast c hc

theorem after_append : after max window (calls ++ [call]) = (after max window calls).receive call :=
  List.foldl_append ..

theorem exact_after (h : Chronological calls) (ht : ∀ c ∈ calls, c.later ≤ t) :
    (after max window calls).Exact max window t := by
  induction calls using List.reverseRecOn generalizing t with
  | nil => exact ⟨rfl, rfl, fun _ => tracks_new, fun _ hc => nomatch hc⟩
  | append_singleton calls call ih =>
    obtain ⟨hcalls, hlater, hlast⟩ := chronological_append.mp h
    have hbefore := (ih hcalls hlast).receive le_rfl hlater
    have hcall : call.later ≤ t := ht call (List.mem_append_right _ List.mem_cons_self)
    rw [after_append]
    exact ⟨hbefore.max_eq, hbefore.window_eq, fun ip => (hbefore.tracks ip).mono hcall,
      fun c hc => (hbefore.past c hc).trans hcall⟩

theorem length_recent_timesOf (hpast : ∀ c ∈ calls, c.now ≤ call.now) :
    (recent (fun now => now - window) call.now (timesOf call.ip calls)).length =
      inWindow window call calls := by
  unfold recent timesOf inWindow
  rw [List.filter_map, List.length_map, List.filter_filter, ← List.countP_eq_length_filter]
  refine List.countP_congr fun c hc => ?_
  have hc := hpast c hc
  simp only [Function.comp_apply, Bool.and_eq_true, decide_eq_true_eq]
  tauto

theorem Session.Exact.isLimited_iff (h : s.Exact max window t) (ht : t ≤ call.now) :
    (s.limiter.isLimited call).2 = true ↔ max ≤ inWindow window call s.letThrough := by
  rw [(h.tracks call.ip).isLimited_iff ht,
    ← length_recent_timesOf fun c hc => (h.past c hc).trans ht]
  unfold Full cutoff
  rw [h.max_eq, h.window_eq]

theorem Session.Exact.isLimited_cleanup (h : s.Exact max window t) {u : ℚ} (htu : t ≤ u)
    (hu : u ≤ call.now) :
    ((s.limiter.cleanup u).isLimited call).2 = (s.limiter.isLimited call).2 := by
  rw [Bool.eq_iff_iff, ((h.tracks call.ip).cleanup htu).isLimited_iff hu,
    (h.tracks call.ip).isLimited_iff (htu.trans hu)]
  rfl

theorem inWindow_filter :
    inWindow window call (calls.filter fun c => c.ip = call.ip) = inWindow window call calls := by
  unfold inWindow
  rw [List.countP_filter]
  refine List.countP_congr fun c _ => ?_
  simp only [Bool.and_eq_true, decide_eq_true_eq]
  tauto

omit [DecidableEq ι] in
theorem Chronological.filter (h : Chronological calls) (p : Call ι → Bool) :
    Chronological (calls.filter p) :=
  ⟨fun c hc => h.within c (List.mem_filter.mp hc).1, h.across.sublist List.filter_sublist⟩

theorem exact_own (max : Nat) (window : ℚ) (h : Chronological calls)
    (hlast : ∀ c ∈ calls, c.later ≤ call.now) :
    (after max window (calls.filter fun c => c.ip = call.ip)).Exact max window call.now :=
  exact_after (h.filter _) fun c hc => hlast c (List.mem_filter.mp hc).1

theorem letThrough_filter (h : Chronological calls) :
    (after max window calls).letThrough.filter (fun c => c.ip = ip) =
      (after max window (calls.filter fun c => c.ip = ip)).letThrough := by
  induction calls using List.reverseRecOn with
  | nil => rfl
  | append_singleton calls call ih =>
    obtain ⟨hcalls, -, hlast⟩ := chronological_append.mp h
    have hexact : (after max window calls).Exact max window call.now := exact_after hcalls hlast
    rw [List.filter_append, after_append, letThrough_receive]
    by_cases hip : call.ip = ip
    · subst hip
      have hown := exact_own max window hcalls hlast
      have hsame : ((after max window calls).limiter.isLimited call).2 =
          ((after max window (calls.filter fun c => c.ip = call.ip)).limiter.isLimited call).2 := by
        rw [Bool.eq_iff_iff, hexact.isLimited_iff le_rfl, hown.isLimited_iff le_rfl, ← ih hcalls,
          inWindow_filter]
      have hsingle : [call].filter (fun c => c.ip = call.ip) = [call] := by simp
      rw [hsingle, after_append, letThrough_receive, hsame]
      split
      · exact ih hcalls
      · rw [List.filter_append, ih hcalls, hsingle]
    · have hsingle : [call].filter (fun c => c.ip = ip) = [] := by simp [hip]
      rw [hsingle, List.append_nil, ← ih hcalls]
      split
      · rfl
      · rw [List.filter_append, hsingle, List.append_nil]

/-- A call is let through if and only if fewer than `max` calls of its address were let
through in the window before it.  Neither a clean-up at some time before the call nor
the calls of other addresses make a difference. -/
theorem rate_limiter_is_sliding_log (max : Nat) (window : ℚ) (calls : List (Call ι))
    (call : Call ι) (h : Chronological (calls ++ [call])) :
    let s := after max window calls
    ((s.limiter.isLimited call).2 = false ↔ inWindow window call s.letThrough < max) ∧
    (∀ u ≤ call.now, (∀ c ∈ calls, c.later ≤ u) →
      ((s.limiter.cleanup u).isLimited call).2 = (s.limiter.isLimited call).2) ∧
    ((after max window (calls.filter fun c => c.ip = call.ip)).limiter.isLimited call).2 =
      (s.limiter.isLimited call).2 := by
  obtain ⟨hcalls, -, hlast⟩ := chronological_append.mp h
  have hexact : (after max window calls).Exact max window call.now := exact_after hcalls hlast
  have hown := exact_own max window hcalls hlast
  refine ⟨?_, fun u hu hpast => ?_, ?_⟩
  · rw [← Bool.not_eq_true, hexact.isLimited_iff le_rfl, Nat.not_le]
  · exact (exact_after hcalls hpast).isLimited_cleanup le_rfl hu
  · rw [Bool.eq_iff_iff, hown.isLimited_iff le_rfl, hexact.isLimited_iff le_rfl,
      ← letThrough_filter hcalls, inWindow_filter]

/-- A call at the very end of the window does not count the one at its start. -/
theorem second_call_at_edge :
    let first : Call String := ⟨"10.0.0.1", 0, 0⟩
    let second : Call String := ⟨"10.0.0.1", 60, 60⟩
    Chronological ([first] ++ [second]) ∧
      ((after 1 60 [first]).limiter.isLimited second).2 = false := by
  intro first second
  have h : Chronological ([first] ++ [second]) := by
    refine ⟨?_, ?_⟩
    · decide +kernel
    · decide +kernel
  exact ⟨h, (rate_limiter_is_sliding_log 1 60 [first] second h).1.mpr (by decide +kernel)⟩

end Sessions

end RateLimiter
end Sentora.Limits
