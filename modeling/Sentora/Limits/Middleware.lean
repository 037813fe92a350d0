import Mathlib.Data.List.DropRight
import Sentora.Lib.Encodings
import Sentora.Limits.RateLimiter

/-!
# The rate limits of all requests

`RateLimitMiddleware` (`middleware/rate_limit.py`): one limiter for every address, and before it
another for the paths with a limit of their own.  Each counts what it has let through itself.
-/

namespace Sentora.Limits

open Lib RateLimiter

/-- `re.sub(r"/+", "/", path)`. -/
def collapse : List Char → List Char
  | '/' :: '/' :: rest => collapse ('/' :: rest)
  | c :: rest => c :: collapse rest
  | [] => []

def normalize (rawPath : String) : String :=
  let path := (collapse (Percent.unquote rawPath.toList)).rdropWhile (· = '/')
  if path.isEmpty then "/" else String.ofList path

def exemptPaths : List String := ["/health", "/health/ready", "/metrics"]

def strictLimits : List (String × Nat) := [("/api/v1/auth/login", 5)]

/-- The first path with a limit of its own that is the path or lies above it. -/
def strictPath (path : String) : Option String :=
  (strictLimits.map Prod.fst).find? fun p =>
    path = p || (p ++ "/").toList.isPrefixOf path.toList

def limitOf (strict : String) : Nat := (strictLimits.lookup strict).getD 0

/-- What stands between the slashes, unless it is empty. -/
def parts (path : List Char) : List (List Char) := (path.splitOn '/').filter (· ≠ [])

def pathOf (parts : List (List Char)) : List Char := parts.flatMap fun part => '/' :: part

def strip (path : List Char) : List Char := path.rdropWhile (· = '/')

section Paths

variable {c : Char} {s t : List Char}

theorem strip_append : strip (s ++ t) = if strip t = [] then strip s else s ++ strip t := by
  induction t using List.reverseRecOn with
  | nil => simp [strip]
  | append_singleton t c ih =>
    unfold strip at ih ⊢
    rw [← List.append_assoc, List.rdropWhile_concat, List.rdropWhile_concat]
    by_cases h : c = '/'
    · simpa [h] using ih
    · simp [h]

theorem strip_cons (hc : c ≠ '/') : strip (c :: s) = c :: strip s := by
  have h := strip_append (s := [c]) (t := s)
  by_cases hs : strip s = []
  · rw [if_pos hs] at h
    rw [hs, ← List.singleton_append, h]
    simp [strip, List.rdropWhile_singleton, hc]
  · rw [if_neg hs] at h
    exact h

theorem collapse_cons (hc : c ≠ '/') : collapse (c :: s) = c :: collapse s := by
  rw [collapse]
  intro rest h
  exact absurd h hc

theorem strip_collapse (s : List Char) :
    strip (collapse ('/' :: s)) = pathOf (parts s) ∧
      ∃ first rest, s.splitOn '/' = first :: rest ∧
        strip (collapse s) = first ++ pathOf (rest.filter (· ≠ [])) := by
  induction s with
  | nil => exact ⟨by decide, [], [], rfl, by decide⟩
  | cons c s ih =>
    obtain ⟨hslash, first, rest, hsplit, hplain⟩ := ih
    by_cases hc : c = '/'
    · subst hc
      have hall : ('/' :: s).splitOn '/' = [] :: s.splitOn '/' := by
        simp [List.splitOn, List.splitOnP_cons_eq_if_modifyHead]
      refine ⟨?_, [], s.splitOn '/', hall, hslash⟩
      rw [collapse, hslash, parts, parts, hall]
      simp
    · have hall : (c :: s).splitOn '/' = (c :: first) :: rest := by
        rw [List.splitOn, List.splitOnP_cons_eq_if_modifyHead, if_neg (by simpa using hc),
          ← List.splitOn, hsplit]
        rfl
      have htext : strip (collapse (c :: s)) = c :: first ++ pathOf (rest.filter (· ≠ [])) := by
        rw [collapse_cons hc, strip_cons hc, hplain]
        rfl
      refine ⟨?_, c :: first, rest, hall, htext⟩
      have hcollapse : collapse ('/' :: c :: s) = ['/'] ++ collapse (c :: s) := by
        rw [collapse]
        · rfl
        · exact fun _ _ h => hc (List.cons.inj h).1
      rw [hcollapse, strip_append, htext, if_neg (by simp), parts, hall]
      rfl

theorem not_mem_of_mem_splitOn : ∀ part ∈ s.splitOn '/', '/' ∉ part := by
  induction s with
  | nil => simp [List.splitOn]
  | cons c s ih =>
    rw [List.splitOn, List.splitOnP_cons_eq_if_modifyHead, ← List.splitOn]
    split
    · exact List.forall_mem_cons.mpr ⟨List.not_mem_nil, ih⟩
    · rename_i hc
      cases hsplit : s.splitOn '/' with
      | nil => exact List.forall_mem_nil _
      | cons first rest =>
        rw [hsplit, List.forall_mem_cons] at ih
        refine List.forall_mem_cons.mpr ⟨fun hmem => ?_, ih.2⟩
        rcases List.mem_cons.mp hmem with h | h
        · exact hc (by simp [← h])
        · exact ih.1 h

/-- What begins with a slash, if with anything. -/
def Slashed (s : List Char) : Prop := s = [] ∨ ∃ rest, s = '/' :: rest

theorem slashed_pathOf (parts : List (List Char)) : Slashed (pathOf parts) := by
  cases parts with
  | nil => exact Or.inl rfl
  | cons part parts => exact Or.inr ⟨_, rfl⟩

theorem split_unique {q w x y : List Char} (hq : '/' ∉ q) (hw : '/' ∉ w) (hx : Slashed x)
    (hy : Slashed y) (h : q ++ x = w ++ y) : q = w ∧ x = y := by
  induction q generalizing w with
  | nil =>
    cases w with
    | nil => exact ⟨rfl, h⟩
    | cons d w =>
      rcases hx with rfl | ⟨rest, rfl⟩
      · cases h
      · exact absurd ((List.cons.inj h).1 ▸ List.mem_cons_self) hw
  | cons c q ih =>
    cases w with
    | nil =>
      rcases hy with rfl | ⟨rest, rfl⟩
      · cases h
      · exact absurd ((List.cons.inj h).1 ▸ List.mem_cons_self) hq
    | cons d w =>
      obtain ⟨rfl, hrest⟩ := List.cons.inj h
      rw [List.mem_cons, not_or] at hq hw
      obtain ⟨rfl, hxy⟩ := ih hq.2 hw.2 hrest
      exact ⟨rfl, hxy⟩

theorem above_iff {qs ps : List (List Char)} (hqs : ∀ q ∈ qs, '/' ∉ q) (hps : ∀ p ∈ ps, '/' ∉ p) :
    pathOf ps = pathOf qs ∨ pathOf qs ++ ['/'] <+: pathOf ps ↔ qs <+: ps := by
  induction qs generalizing ps with
  | nil => cases ps <;> simp [pathOf]
  | cons q qs ih =>
    cases ps with
    | nil => simp [pathOf]
    | cons p ps =>
      rw [List.forall_mem_cons] at hqs hps
      rw [List.cons_prefix_cons, ← ih hqs.2 hps.2]
      show '/' :: (p ++ pathOf ps) = '/' :: (q ++ pathOf qs) ∨
        '/' :: (q ++ pathOf qs) ++ ['/'] <+: '/' :: (p ++ pathOf ps) ↔ _
      rw [List.cons.injEq, List.cons_append, List.cons_prefix_cons, List.append_assoc]
      simp only [true_and]
      constructor
      · rintro (h | ⟨rest, h⟩)
        · obtain ⟨rfl, hrest⟩ :=
            split_unique hps.1 hqs.1 (slashed_pathOf ps) (slashed_pathOf qs) h
          exact ⟨rfl, Or.inl hrest⟩
        · have hslashed : Slashed (pathOf qs ++ ['/'] ++ rest) := by
            rcases slashed_pathOf qs with hnil | ⟨tail, htail⟩
            · exact Or.inr ⟨rest, by rw [hnil]; rfl⟩
            · exact Or.inr ⟨tail ++ ['/'] ++ rest, by rw [htail]; rfl⟩
          rw [List.append_assoc] at h
          obtain ⟨rfl, hrest⟩ :=
            split_unique hqs.1 hps.1 hslashed (slashed_pathOf ps) h
          exact ⟨rfl, Or.inr ⟨rest, hrest⟩⟩
      · rintro ⟨rfl, h | ⟨rest, h⟩⟩
        · exact Or.inl (by rw [h])
        · exact Or.inr ⟨rest, by rw [← h, List.append_assoc]⟩

def loginParts : List (List Char) := ["api".toList, "v1".toList, "auth".toList, "login".toList]

/-- The limit of the login holds for the paths with its parts at their front, however the raw
path encodes its characters and repeats its slashes. -/
theorem strictPath_normalize_iff (rawPath : String) :
    strictPath (normalize rawPath) = some "/api/v1/auth/login" ↔
      (Percent.unquote rawPath.toList).head? = some '/' ∧
        loginParts <+: parts (Percent.unquote rawPath.toList) := by
  generalize hs : Percent.unquote rawPath.toList = s
  have hlogin : "/api/v1/auth/login".toList = pathOf loginParts := by decide
  have hstrict : ∀ path : String, strictPath path = some "/api/v1/auth/login" ↔
      path.toList = pathOf loginParts ∨ pathOf loginParts ++ ['/'] <+: path.toList := by
    intro path
    rw [← hlogin]
    have htext : ("/api/v1/auth/login" ++ "/").toList = "/api/v1/auth/login".toList ++ ['/'] := by
      decide
    unfold strictPath strictLimits
    rw [List.map_cons, List.map_nil, List.find?_singleton, htext]
    simp [String.ext_iff, or_iff_not_imp_left]
  have hslash : strictPath "/" ≠ some "/api/v1/auth/login" := by decide
  unfold normalize
  rw [hs]
  dsimp only
  rw [show (collapse s).rdropWhile (· = '/') = strip (collapse s) from rfl]
  cases s with
  | nil => exact iff_of_false hslash fun h => nomatch h.1
  | cons c s =>
    by_cases hc : c = '/'
    · subst hc
      have hparts : parts ('/' :: s) = parts s := by
        simp [parts, List.splitOn, List.splitOnP_cons_eq_if_modifyHead]
      rw [(strip_collapse s).1, hparts, and_iff_right (show ('/' :: s).head? = some '/' from rfl)]
      have habove : loginParts <+: parts s ↔ pathOf (parts s) = pathOf loginParts ∨
          pathOf loginParts ++ ['/'] <+: pathOf (parts s) :=
        (above_iff (by decide) fun p hp =>
          not_mem_of_mem_splitOn p (List.mem_of_mem_filter hp)).symm
      rw [habove]
      cases hpath : pathOf (parts s) with
      | nil =>
        refine iff_of_false hslash ?_
        simp [pathOf, loginParts]
      | cons d path =>
        rw [List.isEmpty_cons, if_neg Bool.false_ne_true, hstrict, String.toList_ofList]
    · obtain ⟨-, first, rest, -, hplain⟩ := strip_collapse s
      rw [collapse_cons hc, strip_cons hc, List.isEmpty_cons, if_neg Bool.false_ne_true, hstrict,
        String.toList_ofList]
      refine iff_of_false ?_ fun h => hc (Option.some.inj h.1)
      simp [pathOf, loginParts, hc, Ne.symm hc]

end Paths

/-- The address of the client, and what the clock shows at the two limiters. -/
structure Request where
  rawPath : String
  ip : String
  strictNow : ℚ
  strictLater : ℚ
  now : ℚ
  later : ℚ

namespace Request

def path (r : Request) : String := normalize r.rawPath

def strictCall (r : Request) : Call String := ⟨r.ip, r.strictNow, r.strictLater⟩

def globalCall (r : Request) : Call String := ⟨r.ip, r.now, r.later⟩

end Request

/-- Both refusals are answered with 429. -/
inductive Outcome where
  | exempt | strictLimited | limited | forwarded
deriving DecidableEq

structure RateLimitMiddleware where
  globalLimiter : RateLimiter String
  strictLimiters : String → RateLimiter String

namespace RateLimitMiddleware

def initial (rateLimitPerMinute : Nat) : RateLimitMiddleware where
  globalLimiter := { max := rateLimitPerMinute, window := 60 }
  strictLimiters path := { max := limitOf path, window := 60 }

def checkStrict (r : Request) (s : RateLimitMiddleware) : RateLimitMiddleware × Bool :=
  match strictPath r.path with
  | none => (s, false)
  | some p =>
    let (limiter, limited) := (s.strictLimiters p).isLimited r.strictCall
    ({ s with strictLimiters := Function.update s.strictLimiters p limiter }, limited)

def dispatch (r : Request) (s : RateLimitMiddleware) : RateLimitMiddleware × Outcome :=
  if r.path ∈ exemptPaths then (s, .exempt)
  else
    let checked := s.checkStrict r
    if checked.2 then (checked.1, .strictLimited)
    else
      let limited := checked.1.globalLimiter.isLimited r.globalCall
      ({ checked.1 with globalLimiter := limited.1 },
        if limited.2 then .limited else .forwarded)

structure Served where
  middleware : RateLimitMiddleware
  history : List (Request × Outcome) := []

def Served.receive (s : Served) (r : Request) : Served :=
  let (middleware, outcome) := s.middleware.dispatch r
  { middleware, history := s.history ++ [(r, outcome)] }

def serve (rateLimitPerMinute : Nat) (requests : List Request) : Served :=
  requests.foldl Served.receive { middleware := initial rateLimitPerMinute }

end RateLimitMiddleware

/-- The requests that the limiter of a path has let through, whatever became of them then. -/
def passedStrict (p : String) (history : List (Request × Outcome)) : List (Call String) :=
  (history.filter fun e => strictPath e.1.path = some p ∧
    (e.2 = .limited ∨ e.2 = .forwarded)).map fun e => e.1.strictCall

def passedGlobal (history : List (Request × Outcome)) : List (Call String) :=
  (history.filter fun e => e.2 = .forwarded).map fun e => e.1.globalCall

/-- The limit of the path is reached in the minute before the request. -/
def strictFull (history : List (Request × Outcome)) (r : Request) : Bool :=
  (strictPath r.path).any fun p =>
    limitOf p ≤ inWindow 60 r.strictCall (passedStrict p history)

def outcomeAfter (rateLimitPerMinute : Nat) (history : List (Request × Outcome)) (r : Request) :
    Outcome :=
  if r.path ∈ exemptPaths then .exempt
  else if strictFull history r then .strictLimited
  else if rateLimitPerMinute ≤ inWindow 60 r.globalCall (passedGlobal history) then .limited
  else .forwarded

/-- The clock does not run backwards, from one limiter to the other and between requests. -/
structure InOrder (requests : List Request) : Prop where
  within : ∀ r ∈ requests, r.strictNow ≤ r.strictLater ∧ r.strictLater ≤ r.now ∧ r.now ≤ r.later
  across : requests.Pairwise fun first second => first.later ≤ second.strictNow

section Limiters

variable {s : RateLimitMiddleware} {history : List (Request × Outcome)} {r : Request}
  {n : Nat} {t u : ℚ} {session : Session String} {max : Nat} {window : ℚ}

theorem exact_mono (h : session.Exact max window t) (htu : t ≤ u) :
    session.Exact max window u :=
  ⟨h.max_eq, h.window_eq, fun ip => (h.tracks ip).mono htu, fun c hc => (h.past c hc).trans htu⟩

/-- Each limiter stands for what it has let through. -/
structure Faithful (n : Nat) (s : RateLimitMiddleware) (history : List (Request × Outcome))
    (t : ℚ) : Prop where
  globally : Session.Exact ⟨s.globalLimiter, passedGlobal history⟩ n 60 t
  strictly : ∀ p, Session.Exact ⟨s.strictLimiters p, passedStrict p history⟩ (limitOf p) 60 t

theorem Faithful.mono (h : Faithful n s history t) (htu : t ≤ u) : Faithful n s history u :=
  ⟨exact_mono h.globally htu, fun p => exact_mono (h.strictly p) htu⟩

theorem faithful_initial : Faithful n (.initial n) [] t := by
  have hnew : ∀ max, Session.Exact (ι := String) ⟨{ max, window := 60 }, []⟩ max 60 t := fun max =>
    ⟨rfl, rfl, fun _ => tracks_new, fun _ hc => nomatch hc⟩
  exact ⟨hnew n, fun p => hnew (limitOf p)⟩

theorem passedGlobal_append (o : Outcome) : passedGlobal (history ++ [(r, o)]) =
    if o = .forwarded then passedGlobal history ++ [r.globalCall] else passedGlobal history := by
  by_cases h : o = .forwarded <;> simp [passedGlobal, h]

theorem passedStrict_append {p : String} (o : Outcome) : passedStrict p (history ++ [(r, o)]) =
    if strictPath r.path = some p ∧ (o = .limited ∨ o = .forwarded) then
      passedStrict p history ++ [r.strictCall]
    else passedStrict p history := by
  by_cases h : strictPath r.path = some p ∧ (o = .limited ∨ o = .forwarded)
  · rw [if_pos h]
    simp [passedStrict, h]
  · rw [if_neg h, passedStrict, List.filter_append, List.filter_cons_of_neg (by simpa using h)]
    simp [passedStrict]

/-- What the limiters let through stays, where they let nothing more through. -/
theorem Faithful.refused {o : Outcome} (h : Faithful n s history t)
    (ho : o = .exempt ∨ o = .strictLimited) : Faithful n s (history ++ [(r, o)]) t := by
  have hnot : o ≠ .forwarded ∧ o ≠ .limited := by rcases ho with rfl | rfl <;> decide
  refine ⟨?_, fun p => ?_⟩
  · rw [passedGlobal_append, if_neg hnot.1]
    exact h.globally
  · rw [passedStrict_append, if_neg fun hp => hp.2.elim hnot.2 hnot.1]
    exact h.strictly p

theorem checkStrict_limited (h : Faithful n s history t) (ht : t ≤ r.strictNow) :
    (s.checkStrict r).2 = strictFull history r := by
  unfold RateLimitMiddleware.checkStrict strictFull
  cases strictPath r.path with
  | none => rfl
  | some p =>
    rw [Option.any_some, Bool.eq_iff_iff, decide_eq_true_iff]
    exact (h.strictly p).isLimited_iff ht

theorem checkStrict_global : (s.checkStrict r).1.globalLimiter = s.globalLimiter := by
  unfold RateLimitMiddleware.checkStrict
  cases strictPath r.path with
  | none => rfl
  | some p => rfl

/-- The limiter of the path stands for the request too, if it is let through. -/
theorem checkStrict_strictly (h : Faithful n s history t) (ht : t ≤ r.strictNow)
    (hlater : r.strictNow ≤ r.strictLater) (p : String) :
    Session.Exact ⟨(s.checkStrict r).1.strictLimiters p,
      if strictPath r.path = some p ∧ (s.checkStrict r).2 = false then
        passedStrict p history ++ [r.strictCall]
      else passedStrict p history⟩ (limitOf p) 60 r.strictLater := by
  have hold := exact_mono (h.strictly p) (ht.trans hlater)
  unfold RateLimitMiddleware.checkStrict
  cases hpath : strictPath r.path with
  | none =>
    rw [if_neg fun hp => nomatch hp.1]
    exact hold
  | some q =>
    by_cases hq : q = p
    · subst hq
      have hreceived : Session.Exact ⟨((s.strictLimiters q).isLimited r.strictCall).1,
          if ((s.strictLimiters q).isLimited r.strictCall).2 then passedStrict q history
          else passedStrict q history ++ [r.strictCall]⟩ (limitOf q) 60 r.strictLater :=
        (h.strictly q).receive ht hlater
      dsimp only
      rw [Function.update_self]
      cases hlimited : ((s.strictLimiters q).isLimited r.strictCall).2 with
      | true =>
        rw [hlimited, if_pos rfl] at hreceived
        rwa [if_neg fun hp => nomatch hp.2]
      | false =>
        rw [hlimited, if_neg Bool.false_ne_true] at hreceived
        rwa [if_pos ⟨rfl, rfl⟩]
    · rw [if_neg fun hp => hq (Option.some.inj hp.1)]
      dsimp only
      rw [Function.update_of_ne (Ne.symm hq)]
      exact hold

/-- One request is answered as what has been let through says, and the limiters go on to stand
for it. -/
theorem dispatch_faithful (h : Faithful n s history t) (ht : t ≤ r.strictNow)
    (hr : r.strictNow ≤ r.strictLater ∧ r.strictLater ≤ r.now ∧ r.now ≤ r.later) :
    (s.dispatch r).2 = outcomeAfter n history r ∧
      Faithful n (s.dispatch r).1 (history ++ [(r, (s.dispatch r).2)]) r.later := by
  obtain ⟨hstrict, hnow, hlater⟩ := hr
  have hend : t ≤ r.later := ht.trans (hstrict.trans (hnow.trans hlater))
  have hlimited := checkStrict_limited h ht
  have hstrictly := checkStrict_strictly h ht hstrict
  unfold RateLimitMiddleware.dispatch outcomeAfter
  by_cases hexempt : r.path ∈ exemptPaths
  · rw [if_pos hexempt, if_pos hexempt]
    exact ⟨rfl, (h.mono hend).refused (Or.inl rfl)⟩
  rw [if_neg hexempt, if_neg hexempt, ← hlimited]
  dsimp only
  cases hfull : (s.checkStrict r).2 with
  | true =>
    rw [if_pos rfl, if_pos rfl]
    refine ⟨rfl, Faithful.mono (Faithful.refused ⟨?_, fun p => ?_⟩ (Or.inr rfl))
      (hnow.trans hlater)⟩
    · rw [checkStrict_global]
      exact exact_mono h.globally (ht.trans hstrict)
    · have hp := hstrictly p
      rwa [hfull, if_neg fun hp => nomatch hp.2] at hp
  | false =>
    rw [if_neg Bool.false_ne_true, if_neg Bool.false_ne_true, checkStrict_global]
    have hready := exact_mono h.globally (ht.trans (hstrict.trans hnow))
    have hreceived : Session.Exact ⟨(s.globalLimiter.isLimited r.globalCall).1,
        if (s.globalLimiter.isLimited r.globalCall).2 then passedGlobal history
        else passedGlobal history ++ [r.globalCall]⟩ n 60 r.later :=
      hready.receive le_rfl hlater
    have hcount : (s.globalLimiter.isLimited r.globalCall).2 = true ↔
        n ≤ inWindow 60 r.globalCall (passedGlobal history) :=
      hready.isLimited_iff le_rfl
    have hpassed : ∀ o, o = .limited ∨ o = .forwarded → ∀ p, Session.Exact
        ⟨(s.checkStrict r).1.strictLimiters p, passedStrict p (history ++ [(r, o)])⟩
        (limitOf p) 60 r.later := by
      intro o ho p
      have hp := exact_mono (hstrictly p) (hnow.trans hlater)
      rw [passedStrict_append]
      simpa only [hfull, ho, and_true] using hp
    cases hover : (s.globalLimiter.isLimited r.globalCall).2 with
    | true =>
      rw [hover, if_pos rfl] at hreceived
      rw [if_pos rfl, if_pos (hcount.mp hover)]
      refine ⟨rfl, ?_, hpassed _ (Or.inl rfl)⟩
      rw [passedGlobal_append, if_neg fun h : Outcome.limited = .forwarded => nomatch h]
      exact hreceived
    | false =>
      rw [hover, if_neg Bool.false_ne_true] at hreceived
      rw [if_neg Bool.false_ne_true, if_neg fun hle => nomatch hover.symm.trans (hcount.mpr hle)]
      refine ⟨rfl, ?_, hpassed _ (Or.inr rfl)⟩
      rw [passedGlobal_append, if_pos rfl]
      exact hreceived

end Limiters

section Runs

variable {n : Nat} {requests : List Request} {r : Request} {t : ℚ}

open RateLimitMiddleware

theorem serve_append : serve n (requests ++ [r]) = (serve n requests).receive r :=
  List.foldl_append ..

theorem inOrder_append : InOrder (requests ++ [r]) ↔ InOrder requests ∧
    (r.strictNow ≤ r.strictLater ∧ r.strictLater ≤ r.now ∧ r.now ≤ r.later) ∧
      ∀ q ∈ requests, q.later ≤ r.strictNow := by
  constructor
  · intro h
    obtain ⟨hfirst, -, hlast⟩ := List.pairwise_append.mp h.across
    refine ⟨⟨fun q hq => h.within q (List.mem_append_left _ hq), hfirst⟩, ?_, fun q hq => ?_⟩
    · exact h.within r (List.mem_append_right _ List.mem_cons_self)
    · exact hlast q hq r List.mem_cons_self
  · rintro ⟨h, hr, hlast⟩
    refine ⟨fun q hq => ?_, List.pairwise_append.mpr ⟨h.across, List.pairwise_singleton .., ?_⟩⟩
    · rcases List.mem_append.mp hq with hq | hq
      · exact h.within q hq
      · rwa [List.mem_singleton.mp hq]
    · intro q hq d hd
      rw [List.mem_singleton.mp hd]
      exact hlast q hq

theorem serve_faithful (h : InOrder requests) (ht : ∀ q ∈ requests, q.later ≤ t) :
    Faithful n (serve n requests).middleware (serve n requests).history t := by
  induction requests using List.reverseRecOn generalizing t with
  | nil => exact faithful_initial
  | append_singleton requests r ih =>
    obtain ⟨hbefore, hr, hlast⟩ := inOrder_append.mp h
    have hstep := (dispatch_faithful (ih hbefore hlast) le_rfl hr).2
    rw [serve_append]
    exact hstep.mono (ht r (List.mem_append_right _ List.mem_cons_self))

/-- The history that the two counts alone give. -/
def expectedHistory (n : Nat) (requests : List Request) : List (Request × Outcome) :=
  requests.foldl (fun history r => history ++ [(r, outcomeAfter n history r)]) []

/-- A request to a path with a limit is refused while the limit is used up by those that its
limiter let through in the minute before, any request is refused while as many as are allowed
were forwarded then, and nothing else is. -/
theorem serve_history (n : Nat) (requests : List Request) (h : InOrder requests) :
    (serve n requests).history = expectedHistory n requests := by
  induction requests using List.reverseRecOn with
  | nil => rfl
  | append_singleton requests r ih =>
    obtain ⟨hbefore, hr, hlast⟩ := inOrder_append.mp h
    have hstep := (dispatch_faithful (serve_faithful (n := n) hbefore hlast) le_rfl hr).1
    have hexpected : expectedHistory n (requests ++ [r]) = expectedHistory n requests ++
        [(r, outcomeAfter n (expectedHistory n requests) r)] := List.foldl_append ..
    rw [serve_append, hexpected, ← ih hbefore, ← hstep]
    rfl

def sixLogins : List Request := (List.range 6).map fun k =>
  ⟨"//api/v1/auth/log%69n", "10.0.0.1", k, k, k, k⟩

theorem sixth_login_refused :
    (serve 100 sixLogins).history.map Prod.snd =
      [.forwarded, .forwarded, .forwarded, .forwarded, .forwarded, .strictLimited] := by
  rw [serve_history 100 sixLogins ⟨by decide +kernel, by decide +kernel⟩]
  decide +kernel

end Runs

end Sentora.Limits
