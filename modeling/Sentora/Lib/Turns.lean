import Mathlib.Data.List.Chain

namespace Lib

section Turns

variable {α : Type}

/-- The last value of a pass, and the last one that differs from it. -/
structure Turn (α : Type) where
  last : α
  other : Option α
deriving DecidableEq

def Turn.Continues (t next : Turn α) : Prop := next.last = t.last ∨ t.other = some next.last

/-- Each pass has two values and ends with one of the two values of the pass before it. -/
structure Swings (ts : List (Turn α)) : Prop where
  two : ∀ t ∈ ts, t.other ≠ none
  linked : ts.IsChain Turn.Continues

/-- The two values of each pass differ. -/
def Apart (ts : List (Turn α)) : Prop := ∀ t ∈ ts, t.other ≠ some t.last

variable {t next : Turn α} {rest : List (Turn α)}

theorem Swings.tail (h : Swings (t :: rest)) : Swings rest :=
  ⟨fun u hu => h.two u (List.mem_cons_of_mem t hu), h.linked.tail⟩

theorem Apart.tail (h : Apart (t :: rest)) : Apart rest :=
  fun u hu => h u (List.mem_cons_of_mem t hu)

variable [DecidableEq α]

def settle (w : α) (ws : List α) : α := ws.foldl (fun current x => if x ≠ w then x else current) w

/-- What the values of a pass come to, if there are any. -/
def Turn.of (ws : List α) : Option (Turn α) :=
  ws.getLast?.map fun x => ⟨x, (ws.filter (· ≠ x)).getLast?⟩

def Turn.apply (w : α) (t : Turn α) : α := if w = t.last then t.other.getD t.last else t.last

/-- One of the two values of a pass. -/
def Turn.side (t : Turn α) (atLast : Bool) : α := if atLast then t.last else t.other.getD t.last

def flips : Turn α → List (Turn α) → Nat
  | _, [] => 0
  | t, next :: rest => (if next.last = t.last then 1 else 0) + flips next rest

/-- The value of the last pass that is reached from a side of the first one. -/
def arrival (t : Turn α) (rest : List (Turn α)) (atLast : Bool) : α :=
  ((t :: rest).getLast (List.cons_ne_nil t rest)).side (xor atLast (flips t rest % 2 = 1))

theorem foldl_settle (w : α) (ws : List α) (current : α) :
    ws.foldl (fun current x => if x ≠ w then x else current) current =
      ((ws.filter (· ≠ w)).getLast?).getD current := by
  induction ws generalizing current with
  | nil => rfl
  | cons x rest ih =>
    rw [List.foldl_cons, ih]
    by_cases hx : x = w
    · rw [if_neg (not_not.mpr hx), List.filter_cons_of_neg (by simpa using hx)]
    · rw [if_pos hx, List.filter_cons_of_pos (by simpa using hx), List.getLast?_cons]
      rfl

theorem settle_eq (w : α) (ws : List α) :
    settle w ws = ((Turn.of ws).map (Turn.apply w)).getD w := by
  rw [settle, foldl_settle, Turn.of]
  cases hlast : ws.getLast? with
  | none =>
    rw [List.getLast?_eq_none_iff.mp hlast]
    rfl
  | some x =>
    obtain ⟨init, rfl⟩ := List.getLast?_eq_some_iff.mp hlast
    rw [Option.map_some, Option.map_some, Option.getD_some, Turn.apply]
    by_cases hx : w = x
    · rw [if_pos hx, hx]
    · rw [if_neg hx, List.filter_append, List.filter_cons_of_pos (by simpa using Ne.symm hx)]
      simp

theorem other_ne_last {t : Turn α} {ws : List α} (h : Turn.of ws = some t) :
    t.other ≠ some t.last := by
  obtain ⟨x, _, rfl⟩ := Option.map_eq_some_iff.mp h
  intro heq
  have hmem := List.mem_filter.mp (List.mem_of_getLast? heq)
  exact of_decide_eq_true hmem.2 rfl

variable {atLast : Bool} {a b w : α}

theorem side_apply : t.apply w = t.side (w ≠ t.last) := by
  rw [Turn.apply, Turn.side]
  by_cases hw : w = t.last
  · simp [hw]
  · simp [hw]

theorem apply_side (hother : t.other ≠ some t.last) (htwo : t.other ≠ none)
    (h : t.Continues next) :
    next.apply (t.side atLast) = next.side (xor atLast (next.last = t.last)) := by
  obtain ⟨y, hy⟩ := Option.ne_none_iff_exists'.mp htwo
  have hne : y ≠ t.last := fun heq => hother (hy.trans (congrArg some heq))
  cases atLast <;> rcases h with heq | heq <;>
    simp_all [Turn.apply, Turn.side, eq_comm]

theorem foldl_side (hapart : Apart (t :: rest)) (h : Swings (t :: rest)) :
    rest.foldl Turn.apply (t.side atLast) = arrival t rest atLast := by
  induction rest generalizing t atLast with
  | nil => simp [arrival, flips]
  | cons next rest ih =>
    have hlinked : t.Continues next := (List.isChain_cons_cons.mp h.linked).1
    rw [List.foldl_cons,
      apply_side (hapart t List.mem_cons_self) (h.two t List.mem_cons_self) hlinked,
      ih hapart.tail h.tail, arrival, arrival, flips, List.getLast_cons_cons]
    congr 1
    by_cases hlast : next.last = t.last
    · have hmod : (1 + flips next rest) % 2 = 1 ↔ ¬flips next rest % 2 = 1 := by omega
      rw [if_pos hlast, decide_eq_true hlast, decide_eq_decide.mpr hmod, decide_not, Bool.xor_true,
        Bool.not_xor, Bool.xor_not]
    · simp [hlast]

theorem foldl_apply (hapart : Apart (t :: rest)) (h : Swings (t :: rest)) :
    (t :: rest).foldl Turn.apply w = arrival t rest (w ≠ t.last) := by
  rw [List.foldl_cons, side_apply, foldl_side hapart h]

theorem arrival_inj (hapart : Apart (t :: rest)) (h : Swings (t :: rest)) {c d : Bool}
    (heq : arrival t rest c = arrival t rest d) : c = d := by
  have hmem := List.getLast_mem (List.cons_ne_nil t rest)
  obtain ⟨y, hy⟩ := Option.ne_none_iff_exists'.mp (h.two _ hmem)
  have hne : y ≠ _ := fun heq => hapart _ hmem (hy.trans (congrArg some heq))
  rw [arrival, arrival] at heq
  generalize flips t rest % 2 = n at heq
  simp only [Turn.side, hy, Option.getD_some] at heq
  by_contra hcd
  by_cases hn : n = 1 <;> cases c <;> cases d <;> simp_all [eq_comm]

theorem foldl_apply_eq (h : ¬Swings (t :: rest)) :
    (t :: rest).foldl Turn.apply a = (t :: rest).foldl Turn.apply b := by
  induction rest generalizing t a b with
  | nil =>
    have hone : t.other = none := by
      by_contra htwo
      exact h ⟨fun u hu => List.mem_singleton.mp hu ▸ htwo, List.IsChain.singleton t⟩
    simp [Turn.apply, hone]
  | cons next rest ih =>
    by_cases htwo : t.other = none
    · simp [Turn.apply, htwo]
    · by_cases hnext : t.Continues next
      · have hrest : ¬Swings (next :: rest) := fun hs => h
          ⟨List.forall_mem_cons.mpr ⟨htwo, hs.two⟩, List.isChain_cons_cons.mpr ⟨hnext, hs.linked⟩⟩
        exact ih hrest
      · obtain ⟨y, hy⟩ := Option.ne_none_iff_exists'.mp htwo
        have hmerge : ∀ c, next.apply (t.apply c) = next.last := by
          intro c
          rw [Turn.Continues, not_or, hy, Option.some_inj] at hnext
          have hside : t.apply c = y ∨ t.apply c = t.last := by
            rw [side_apply]
            cases decide (c ≠ t.last) <;> simp [Turn.side, hy]
          rcases hside with heq | heq
          · rw [heq]
            exact if_neg hnext.2
          · rw [heq]
            exact if_neg (Ne.symm hnext.1)
        rw [List.foldl_cons, List.foldl_cons, List.foldl_cons, List.foldl_cons, hmerge, hmerge]

/-- Further passes leave what came of a value if and only if the passes do not swing or come
back to the last value of the first exactly where they came from it. -/
theorem foldl_foldl_iff (hapart : Apart (t :: rest)) :
    (t :: rest).foldl Turn.apply ((t :: rest).foldl Turn.apply w) =
        (t :: rest).foldl Turn.apply w ↔
      (Swings (t :: rest) → (arrival t rest (w ≠ t.last) = t.last ↔ w = t.last)) := by
  by_cases hswings : Swings (t :: rest)
  · rw [foldl_apply hapart hswings, foldl_apply hapart hswings, forall_prop_of_true hswings]
    constructor
    · intro heq
      simpa [not_iff_not] using arrival_inj hapart hswings heq
    · intro hiff
      rw [decide_eq_decide.mpr (not_congr hiff)]
  · exact iff_of_true (foldl_apply_eq hswings) fun h => absurd h hswings

theorem foldl_last_iff (hapart : Apart (t :: rest)) :
    (t :: rest).foldl Turn.apply (rest.foldl Turn.apply t.last) = rest.foldl Turn.apply t.last ↔
      (Swings (t :: rest) → arrival t rest true ≠ t.last) := by
  by_cases hswings : Swings (t :: rest)
  · have hlast : rest.foldl Turn.apply (t.side true) = arrival t rest true :=
      foldl_side hapart hswings
    rw [show t.side true = t.last from rfl] at hlast
    rw [hlast, foldl_apply hapart hswings, forall_prop_of_true hswings]
    constructor
    · intro heq
      exact of_decide_eq_true (arrival_inj hapart hswings heq)
    · intro hne
      rw [decide_eq_true hne]
  · refine iff_of_true ?_ fun h => absurd h hswings
    obtain ⟨c, hc⟩ : ∃ c, t.apply c = t.last := by
      cases hother : t.other with
      | none => exact ⟨t.last, by rw [Turn.apply, if_pos rfl, hother, Option.getD_none]⟩
      | some y => exact ⟨y, if_neg fun heq =>
          hapart t List.mem_cons_self (hother.trans (congrArg some heq))⟩
    rw [foldl_apply_eq hswings, List.foldl_cons, hc]

end Turns

end Lib
