import Mathlib.Data.List.Forall2
import Mathlib.Data.List.Infix

/-!
# Shell patterns

Patterns with `*`, `?` and brackets, as `fnmatch.translate` reads them, and the names
that they match.
-/

namespace Lib.Glob

/-- What stands in a bracket: a character, or the characters from one to another. -/
inductive Item where
  | char (c : Char)
  | range (lo hi : Char)
deriving DecidableEq

inductive Token where
  | star
  | any
  | never
  | lit (c : Char)
  | set (negated : Bool) (items : List Item)
deriving DecidableEq

/-- A character that may stand at the start of `cs`, and what is behind it. -/
def leading (c : Char) (cs : List Char) : List Char × List Char :=
  match cs with
  | [] => ([], [])
  | d :: rest => if d = c then ([c], rest) else ([], cs)

/-- The text of a bracket behind its `[`, and what is behind its `]`.  The closing bracket is
not the first character, nor that behind a `!`. -/
def bracket (cs : List Char) : Option (List Char × List Char) :=
  let (negation, cs₁) := leading '!' cs
  let (first, cs₂) := leading ']' cs₁
  match cs₂.dropWhile fun c => c ≠ ']' with
  | [] => none
  | _ :: rest => some (negation ++ first ++ cs₂.takeWhile fun c => c ≠ ']', rest)

/-- The text cut at the hyphens of its ranges, of which none is among the next `skip`
characters. -/
def chunks : Nat → List Char → List Char → List (List Char)
  | _, cur, [] => [cur]
  | skip + 1, cur, c :: cs => chunks skip (cur ++ [c]) cs
  | 0, cur, c :: cs => if c = '-' then cur :: chunks 2 [] cs else chunks 0 (cur ++ [c]) cs

/-- A hyphen at the end is one of the characters. -/
def closeChunks : List (List Char) → List (List Char)
  | [c, []] => [c ++ ['-']]
  | c :: rest => c :: closeChunks rest
  | [] => []

def emptyBetween (c d : List Char) : Bool :=
  match c.getLast?, d.head? with
  | some lo, some hi => hi < lo
  | _, _ => false

def dropEmpty : List (List Char) → List (List Char)
  | [] => []
  | c :: rest =>
    match dropEmpty rest with
    | [] => [c]
    | d :: ds => if emptyBetween c d then (c.dropLast ++ d.tail) :: ds else c :: d :: ds

/-- Two chunks are joined by the range from the last character of the one to the first of
the other, or by a hyphen where the one has no characters. -/
def itemsFrom : List Char → List (List Char) → List Item
  | c, [] => c.map .char
  | c, d :: rest =>
    match c.getLast?, d with
    | some lo, hi :: d' => c.dropLast.map .char ++ .range lo hi :: itemsFrom d' rest
    | _, _ => c.map .char ++ .char '-' :: itemsFrom d rest

def setOf (stuff : List Char) : Token :=
  match dropEmpty (closeChunks (chunks (if stuff.head? = some '!' then 2 else 1) [] stuff)) with
  | [] => .never
  | [[]] => .never
  | [['!']] => .any
  | ('!' :: c) :: rest => .set true (itemsFrom c rest)
  | c :: rest => .set false (itemsFrom c rest)

/-- Consecutive stars are one. -/
def addStar : List Token → List Token
  | .star :: rest => .star :: rest
  | tokens => .star :: tokens

def translateAux : Nat → List Char → List Token
  | 0, _ => []
  | _, [] => []
  | fuel + 1, c :: cs =>
    if c = '*' then addStar (translateAux fuel cs)
    else if c = '?' then .any :: translateAux fuel cs
    else if c = '[' then
      match bracket cs with
      | none => .lit '[' :: translateAux fuel cs
      | some (stuff, rest) => setOf stuff :: translateAux fuel rest
    else .lit c :: translateAux fuel cs

/-- `fnmatch.translate`. -/
def translate (pattern : List Char) : List Token := translateAux pattern.length pattern

def wildcards : List Char := ['*', '?', '[']

theorem translate_plain {pattern : List Char} (h : ∀ c ∈ pattern, c ∉ wildcards) :
    translate pattern = pattern.map .lit := by
  unfold translate
  induction pattern with
  | nil => rfl
  | cons c cs ih =>
    have hc : c ∉ wildcards := h c List.mem_cons_self
    simp only [wildcards, List.mem_cons, List.not_mem_nil, or_false, not_or] at hc
    obtain ⟨hstar, hany, hopen⟩ := hc
    rw [List.length_cons, translateAux, if_neg hstar, if_neg hany, if_neg hopen,
      ih fun d hd => h d (List.mem_cons_of_mem _ hd)]
    rfl

def Item.accepts (variants : Char → List Char) (x : Char) : Item → Bool
  | .char c => (variants x).contains c
  | .range lo hi => (variants x).any fun c => lo ≤ c && c ≤ hi

def Token.accepts (variants : Char → List Char) (x : Char) : Token → Bool
  | .star => false
  | .any => true
  | .never => false
  | .lit c => (variants x).contains c
  | .set negated items => negated != items.any (Item.accepts variants x)

def matchTokens (variants : Char → List Char) : List Token → List Char → Bool
  | [] => List.isEmpty
  | .star :: ts => fun xs => xs.tails.any (matchTokens variants ts)
  | t :: ts => fun xs =>
    match xs with
    | [] => false
    | x :: rest => t.accepts variants x && matchTokens variants ts rest

section Matching

variable {v w : Char → List Char} {t u : Token} {ts us : List Token} {x : Char} {xs : List Char}

@[simp] theorem matchTokens_nil : matchTokens v [] xs = xs.isEmpty := rfl

theorem matchTokens_star : matchTokens v (.star :: ts) xs = true ↔
    ∃ ys, ys <:+ xs ∧ matchTokens v ts ys = true := by
  rw [matchTokens, List.any_eq_true]
  simp only [List.mem_tails]

theorem matchTokens_cons_nil (h : t ≠ .star) : matchTokens v (t :: ts) [] = false := by
  cases t with
  | star => exact absurd rfl h
  | _ => rfl

theorem matchTokens_cons_cons (h : t ≠ .star) :
    matchTokens v (t :: ts) (x :: xs) = (t.accepts v x && matchTokens v ts xs) := by
  cases t with
  | star => exact absurd rfl h
  | _ => rfl

theorem matchTokens_lit {cs : List Char} (h : ∀ x, v x = [x]) :
    matchTokens v (cs.map .lit) xs = true ↔ cs = xs := by
  induction cs generalizing xs with
  | nil => rw [List.map_nil, matchTokens_nil, List.isEmpty_iff, eq_comm]
  | cons c cs ih =>
    rw [List.map_cons]
    cases xs with
    | nil => rw [matchTokens_cons_nil (by simp)]; simp
    | cons x xs =>
      rw [matchTokens_cons_cons (by simp), Bool.and_eq_true, ih, List.cons.injEq, Token.accepts,
        h x]
      simp

def Aligned : List Token → List Token → Prop :=
  List.Forall₂ fun t u => t = .star ↔ u = .star

/-- Tokens that stand for the same characters among some. -/
def Agree (D : Char → Prop) (v w : Char → List Char) : List Token → List Token → Prop :=
  List.Forall₂ fun t u => (t = .star ↔ u = .star) ∧ ∀ x, D x → t.accepts v x = u.accepts w x

/-- One of the tokens stands for no character among some. -/
def Dead (D : Char → Prop) (v : Char → List Char) (ts : List Token) : Prop :=
  ∃ t ∈ ts, t ≠ .star ∧ ∀ x, D x → t.accepts v x = false

variable {D : Char → Prop}

theorem Agree.matchTokens_eq (h : Agree D v w ts us) (hxs : ∀ x ∈ xs, D x) :
    matchTokens v ts xs = matchTokens w us xs := by
  induction h generalizing xs with
  | nil => rfl
  | @cons t u ts us hhead _ ih =>
    obtain ⟨hstar, haccepts⟩ := hhead
    by_cases ht : t = .star
    · rw [ht, hstar.mp ht, Bool.eq_iff_iff, matchTokens_star, matchTokens_star]
      refine exists_congr fun ys => and_congr_right fun hys => ?_
      rw [ih fun x hx => hxs x (hys.mem hx)]
    · have hu : u ≠ .star := fun hu => ht (hstar.mpr hu)
      cases xs with
      | nil => rw [matchTokens_cons_nil ht, matchTokens_cons_nil hu]
      | cons x xs =>
        rw [matchTokens_cons_cons ht, matchTokens_cons_cons hu,
          haccepts x (hxs x List.mem_cons_self), ih fun y hy => hxs y (List.mem_cons_of_mem _ hy)]

theorem Agree.addStar (h : Agree D v w ts us) : Agree D v w (addStar ts) (addStar us) := by
  have hcons : Agree D v w (.star :: ts) (.star :: us) := .cons ⟨Iff.rfl, fun _ _ => rfl⟩ h
  cases h with
  | nil => exact hcons
  | @cons t u ts us hhead hrest =>
    by_cases ht : t = .star
    · rw [ht, hhead.1.mp ht]
      exact .cons ⟨Iff.rfl, fun _ _ => rfl⟩ hrest
    · have hu : u ≠ .star := fun hu => ht (hhead.1.mpr hu)
      have hleft : Glob.addStar (t :: ts) = .star :: t :: ts := by
        cases t with
        | star => exact absurd rfl ht
        | _ => rfl
      have hright : Glob.addStar (u :: us) = .star :: u :: us := by
        cases u with
        | star => exact absurd rfl hu
        | _ => rfl
      rw [hleft, hright]
      exact hcons

theorem agree_of_letterwise {p : List Char} {f : Char → Char} (hopen : '[' ∉ p)
    (hwild : ∀ c ∈ p, ∀ d ∈ wildcards, f c = d ↔ c = d)
    (hlit : ∀ c ∈ p, ∀ x, D x → (c ∈ v x ↔ f c ∈ w x)) :
    Agree D v w (translate p) (translate (p.map f)) := by
  unfold translate
  rw [List.length_map]
  induction p with
  | nil => exact .nil
  | cons c p ih =>
    have hrest := ih (fun h => hopen (List.mem_cons_of_mem _ h))
      (fun d hd => hwild d (List.mem_cons_of_mem _ hd))
      (fun d hd => hlit d (List.mem_cons_of_mem _ hd))
    have hc := hwild c List.mem_cons_self
    have hne : c ≠ '[' := fun h => hopen (h ▸ List.mem_cons_self)
    have hstar := hc '*' (by decide)
    have hany := hc '?' (by decide)
    have hbracket := hc '[' (by decide)
    rw [List.map_cons, List.length_cons, translateAux, translateAux, if_neg hne,
      if_neg (mt hbracket.mp hne)]
    by_cases h : c = '*'
    · rw [if_pos h, if_pos (hstar.mpr h)]
      exact hrest.addStar
    · rw [if_neg h, if_neg (mt hstar.mp h)]
      by_cases h : c = '?'
      · rw [if_pos h, if_pos (hany.mpr h)]
        exact .cons ⟨Iff.rfl, fun _ _ => rfl⟩ hrest
      · rw [if_neg h, if_neg (mt hany.mp h)]
        refine .cons ⟨by simp, fun x hx => ?_⟩ hrest
        rw [Token.accepts, Token.accepts, Bool.eq_iff_iff, List.contains_iff_mem,
          List.contains_iff_mem]
        exact hlit c List.mem_cons_self x hx

theorem Dead.matchTokens_eq (h : Dead D v ts) (hxs : ∀ x ∈ xs, D x) :
    matchTokens v ts xs = false := by
  induction ts generalizing xs with
  | nil =>
    obtain ⟨t, ht, -⟩ := h
    cases ht
  | cons t ts ih =>
    obtain ⟨u, hu, hne, hnone⟩ := h
    by_cases ht : t = .star
    · have hu' : u ∈ ts := (List.mem_cons.mp hu).resolve_left fun heq => hne (heq.trans ht)
      rw [ht, Bool.eq_false_iff, Ne, matchTokens_star]
      rintro ⟨ys, hys, hmatch⟩
      rw [ih ⟨u, hu', hne, hnone⟩ fun x hx => hxs x (hys.mem hx)] at hmatch
      cases hmatch
    · cases xs with
      | nil => exact matchTokens_cons_nil ht
      | cons x xs =>
        rw [matchTokens_cons_cons ht]
        rcases List.mem_cons.mp hu with heq | hu'
        · rw [← heq, hnone x (hxs x List.mem_cons_self), Bool.false_and]
        · rw [ih ⟨u, hu', hne, hnone⟩ fun y hy => hxs y (List.mem_cons_of_mem _ hy), Bool.and_false]

/-- Whether the tokens that are no stars stand for the characters of a name. -/
def fits (v : Char → List Char) : List Token → List Char → Bool
  | [], xs => xs.isEmpty
  | .star :: ts, xs => fits v ts xs
  | t :: ts, xs =>
    match xs with
    | [] => false
    | x :: rest => t.accepts v x && fits v ts rest

theorem fits_cons_nil (h : t ≠ .star) : fits v (t :: ts) [] = false := by
  cases t with
  | star => exact absurd rfl h
  | _ => rfl

theorem fits_cons_cons (h : t ≠ .star) :
    fits v (t :: ts) (x :: xs) = (t.accepts v x && fits v ts xs) := by
  cases t with
  | star => exact absurd rfl h
  | _ => rfl

def singles (ts : List Token) : Nat := ts.countP (· ≠ .star)

theorem singles_star : singles (.star :: ts) = singles ts := by simp [singles]

theorem singles_cons (h : t ≠ .star) : singles (t :: ts) = singles ts + 1 := by simp [singles, h]

theorem singles_le (h : matchTokens v ts xs = true) : singles ts ≤ xs.length := by
  induction ts generalizing xs with
  | nil => exact Nat.zero_le _
  | cons t ts ih =>
    by_cases ht : t = .star
    · rw [ht, matchTokens_star] at h
      obtain ⟨ys, hys, hmatch⟩ := h
      rw [ht, singles_star]
      exact Nat.le_trans (ih hmatch) hys.length_le
    · cases xs with
      | nil =>
        rw [matchTokens_cons_nil ht] at h
        cases h
      | cons x xs =>
        rw [matchTokens_cons_cons ht, Bool.and_eq_true] at h
        rw [singles_cons ht, List.length_cons]
        exact Nat.succ_le_succ (ih h.2)

theorem matchTokens_eq_fits (h : xs.length = singles ts) : matchTokens v ts xs = fits v ts xs := by
  induction ts generalizing xs with
  | nil => rfl
  | cons t ts ih =>
    by_cases ht : t = .star
    · rw [ht, singles_star] at h
      rw [ht, fits, ← ih h, Bool.eq_iff_iff, matchTokens_star]
      constructor
      · rintro ⟨ys, hys, hmatch⟩
        have hall : ys = xs := hys.eq_of_length_le (h ▸ singles_le hmatch)
        rw [← hall]
        exact hmatch
      · intro hmatch
        exact ⟨xs, List.suffix_refl xs, hmatch⟩
    · cases xs with
      | nil => rw [matchTokens_cons_nil ht, fits_cons_nil ht]
      | cons x xs =>
        rw [singles_cons ht, List.length_cons] at h
        rw [matchTokens_cons_cons ht, fits_cons_cons ht, ih (Nat.succ.inj h)]

theorem Aligned.singles_eq (h : Aligned ts us) : singles ts = singles us := by
  induction h with
  | nil => rfl
  | @cons t u ts us hhead _ ih =>
    by_cases ht : t = .star
    · rw [ht, hhead.mp ht, singles_star, singles_star, ih]
    · rw [singles_cons ht, singles_cons fun hu => ht (hhead.mpr hu), ih]

theorem exists_accepts (h : ¬Dead D v (t :: ts)) (ht : t ≠ .star) :
    ∃ x, D x ∧ t.accepts v x = true := by
  by_contra hnone
  refine h ⟨t, List.mem_cons_self, ht, fun x hx => ?_⟩
  rw [Bool.eq_false_iff]
  exact fun haccepts => hnone ⟨x, hx, haccepts⟩

theorem not_dead_of_cons (h : ¬Dead D v (t :: ts)) : ¬Dead D v ts :=
  fun ⟨u, hu, hdead⟩ => h ⟨u, List.mem_cons_of_mem _ hu, hdead⟩

theorem exists_fits (h : ¬Dead D v ts) :
    ∃ xs : List Char, (∀ x ∈ xs, D x) ∧ xs.length = singles ts ∧ fits v ts xs = true := by
  induction ts with
  | nil => exact ⟨[], by simp, rfl, rfl⟩
  | cons t ts ih =>
    obtain ⟨xs, hxs, hlength, hfits⟩ := ih (not_dead_of_cons h)
    by_cases ht : t = .star
    · refine ⟨xs, hxs, ?_, ?_⟩
      · rw [ht, singles_star, hlength]
      · rw [ht]
        exact hfits
    · obtain ⟨x, hx, haccepts⟩ := exists_accepts h ht
      refine ⟨x :: xs, List.forall_mem_cons.mpr ⟨hx, hxs⟩, ?_, ?_⟩
      · rw [singles_cons ht, List.length_cons, hlength]
      · rw [fits_cons_cons ht, haccepts, hfits]
        rfl

theorem agree_of_fits_eq (haligned : Aligned ts us) (hts : ¬Dead D v ts) (hus : ¬Dead D w us)
    (hfits : ∀ xs : List Char, (∀ x ∈ xs, D x) → xs.length = singles ts →
      fits v ts xs = fits w us xs) : Agree D v w ts us := by
  induction haligned with
  | nil => exact .nil
  | @cons t u ts us hhead hrest ih =>
    have hts' := not_dead_of_cons hts
    have hus' := not_dead_of_cons hus
    by_cases ht : t = .star
    · refine .cons ⟨hhead, fun x _ => ?_⟩ (ih hts' hus' fun xs hxs hlength => ?_)
      · rw [ht, hhead.mp ht]
        rfl
      · have hsame := hfits xs hxs (by rw [ht, singles_star, hlength])
        rw [ht, hhead.mp ht] at hsame
        exact hsame
    · have hu : u ≠ .star := fun hu => ht (hhead.mpr hu)
      -- a name that the rest fits shows what the first token stands for, and the other way round
      have hcons : ∀ x xs, D x → (∀ y ∈ xs, D y) → xs.length = singles ts →
          (t.accepts v x && fits v ts xs) = (u.accepts w x && fits w us xs) := by
        intro x xs hx hxs hlength
        rw [← fits_cons_cons ht, ← fits_cons_cons hu]
        exact hfits (x :: xs) (List.forall_mem_cons.mpr ⟨hx, hxs⟩)
          (by rw [singles_cons ht, List.length_cons, hlength])
      have haccepts : ∀ x, D x → t.accepts v x = u.accepts w x := by
        intro x hx
        obtain ⟨xs, hxs, hlength, hfit⟩ := exists_fits hts'
        obtain ⟨ys, hys, hlength', hfit'⟩ := exists_fits hus'
        have hxs' := hcons x xs hx hxs hlength
        have hys' := hcons x ys hx hys (hlength'.trans (Aligned.singles_eq hrest).symm)
        rw [hfit, Bool.and_true] at hxs'
        rw [hfit', Bool.and_true] at hys'
        cases hu' : u.accepts w x with
        | false => rw [hxs', hu', Bool.false_and]
        | true =>
          rw [hu'] at hys'
          exact (Bool.and_eq_true_iff.mp hys').1
      refine .cons ⟨hhead, haccepts⟩ (ih hts' hus' fun xs hxs hlength => ?_)
      obtain ⟨x, hx, hone⟩ := exists_accepts hts ht
      have hsame := hcons x xs hx hxs hlength
      rw [← haccepts x hx, hone, Bool.true_and, Bool.true_and] at hsame
      exact hsame

theorem agree_or_dead (haligned : Aligned ts us)
    (h : ∀ xs : List Char, (∀ x ∈ xs, D x) → matchTokens v ts xs = matchTokens w us xs) :
    Agree D v w ts us ∨ (Dead D v ts ∧ Dead D w us) := by
  have hfits : ∀ xs : List Char, (∀ x ∈ xs, D x) → xs.length = singles ts →
      fits v ts xs = fits w us xs := by
    intro xs hxs hlength
    rw [← matchTokens_eq_fits hlength, h xs hxs,
      matchTokens_eq_fits (hlength.trans haligned.singles_eq)]
  by_cases hts : Dead D v ts
  · refine Or.inr ⟨hts, ?_⟩
    by_contra hus
    obtain ⟨xs, hxs, hlength, hfit⟩ := exists_fits hus
    rw [← matchTokens_eq_fits hlength, ← h xs hxs, hts.matchTokens_eq hxs] at hfit
    cases hfit
  · by_cases hus : Dead D w us
    · obtain ⟨xs, hxs, hlength, hfit⟩ := exists_fits hts
      rw [← matchTokens_eq_fits hlength, h xs hxs, hus.matchTokens_eq hxs] at hfit
      cases hfit
    · exact Or.inl (agree_of_fits_eq haligned hts hus hfits)

end Matching

end Lib.Glob
