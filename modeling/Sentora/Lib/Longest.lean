import Mathlib.Data.List.Infix
namespace Lib

section Candidates

variable {α β : Type} {size : α → Nat} {value : α → β} {candidate : α → Bool}
  {best : Option β × Nat} {x : α} {xs ys : List α}

def keepLonger (size : α → Nat) (value : α → β) (candidate : α → Bool) (best : Option β × Nat)
    (x : α) : Option β × Nat :=
  if best.2 < size x && candidate x then (some (value x), size x) else best

/-- The candidate is longer than the start, and no other is longer. -/
structure IsLongest (size : α → Nat) (candidate : α → Bool) (start : Nat) (xs : List α) (x : α) :
    Prop where
  mem : x ∈ xs
  fits : candidate x = true
  longer : start < size x
  longest : ∀ y ∈ xs, candidate y = true → size y ≤ size x

theorem foldl_keepLonger (value : α → β) (best : Option β × Nat) (xs : List α) :
    (xs.foldl (keepLonger size value candidate) best = best ∧
        ∀ x ∈ xs, candidate x = true → size x ≤ best.2) ∨
      ∃ x, IsLongest size candidate best.2 xs x ∧
        xs.foldl (keepLonger size value candidate) best = (some (value x), size x) := by
  induction xs generalizing best with
  | nil => exact .inl ⟨rfl, List.forall_mem_nil _⟩
  | cons x xs ih =>
    rw [List.foldl_cons]
    by_cases htake : best.2 < size x ∧ candidate x = true
    · have hstep : keepLonger size value candidate best x = (some (value x), size x) :=
        if_pos (by simpa using htake)
      rw [hstep]
      right
      rcases ih (some (value x), size x) with ⟨hsame, hall⟩ | ⟨y, hy, hfold⟩
      · refine ⟨x, ⟨List.mem_cons_self, htake.2, htake.1, ?_⟩, hsame⟩
        rw [List.forall_mem_cons]
        exact ⟨fun _ => Nat.le_refl _, hall⟩
      · refine ⟨y, ⟨List.mem_cons_of_mem x hy.mem, hy.fits, Nat.lt_trans htake.1 hy.longer, ?_⟩,
          hfold⟩
        rw [List.forall_mem_cons]
        exact ⟨fun _ => Nat.le_of_lt hy.longer, hy.longest⟩
    · have hstep : keepLonger size value candidate best x = best :=
        if_neg (by simpa using htake)
      have hle : candidate x = true → size x ≤ best.2 :=
        fun hx => Nat.le_of_not_lt fun hlt => htake ⟨hlt, hx⟩
      rw [hstep]
      rcases ih best with ⟨hsame, hall⟩ | ⟨y, hy, hfold⟩
      · exact .inl ⟨hsame, List.forall_mem_cons.mpr ⟨hle, hall⟩⟩
      · refine .inr ⟨y, ⟨List.mem_cons_of_mem x hy.mem, hy.fits, hy.longer, ?_⟩, hfold⟩
        rw [List.forall_mem_cons]
        exact ⟨fun hx => Nat.le_trans (hle hx) (Nat.le_of_lt hy.longer), hy.longest⟩

theorem foldl_keepLonger_of_isLongest (hx : IsLongest size candidate best.2 xs x)
    (hvalue : ∀ y ∈ xs, candidate y = true → size y = size x → value y = value x) :
    xs.foldl (keepLonger size value candidate) best = (some (value x), size x) := by
  rcases foldl_keepLonger value best xs with ⟨-, hall⟩ | ⟨y, hy, hfold⟩
  · exact absurd (hall x hx.mem hx.fits) (Nat.not_le_of_lt hx.longer)
  · have hsize : size y = size x :=
      Nat.le_antisymm (hx.longest y hy.mem hy.fits) (hy.longest x hx.mem hx.fits)
    rw [hfold, hvalue y hy.mem hy.fits hsize, hsize]

theorem foldl_keepLonger_of_none (h : ∀ x ∈ xs, candidate x = true → size x ≤ best.2) :
    xs.foldl (keepLonger size value candidate) best = best := by
  rcases foldl_keepLonger value best xs with ⟨hsame, -⟩ | ⟨x, hx, -⟩
  · exact hsame
  · exact absurd (h x hx.mem hx.fits) (Nat.not_le_of_lt hx.longer)

/-- The order of the list does not matter then. -/
theorem foldl_keepLonger_congr (hmem : ∀ x, x ∈ xs ↔ x ∈ ys)
    (hvalue : ∀ x ∈ xs, ∀ y ∈ xs, candidate x = true → candidate y = true → size y = size x →
      value y = value x) :
    xs.foldl (keepLonger size value candidate) best =
      ys.foldl (keepLonger size value candidate) best := by
  rcases foldl_keepLonger value best ys with ⟨hsame, hall⟩ | ⟨x, hx, hfold⟩
  · rw [hsame, foldl_keepLonger_of_none fun x hx => hall x ((hmem x).mp hx)]
  · rw [hfold]
    have hxs := (hmem x).mpr hx.mem
    exact foldl_keepLonger_of_isLongest
      ⟨hxs, hx.fits, hx.longer, fun y hy => hx.longest y ((hmem y).mp hy)⟩
      fun y hy hcandidate => hvalue x hxs y hy hx.fits hcandidate

end Candidates

section Prefixes

variable {ν α : Type} {find : List ν → Option α} {xs ys p : List ν} {a : α}

def prefixes (xs : List ν) : List (List ν) :=
  ((List.range xs.length).map fun i => xs.take (i + 1)).reverse

def longestFound (find : List ν → Option α) (xs : List ν) : Option α := (prefixes xs).findSome? find

theorem prefixes_concat (xs : List ν) (x : ν) :
    prefixes (xs ++ [x]) = (xs ++ [x]) :: prefixes xs := by
  unfold prefixes
  rw [List.length_append, List.length_singleton, List.range_succ, List.map_append,
    List.reverse_append]
  have hlast : (xs ++ [x]).take (xs.length + 1) = xs ++ [x] :=
    List.take_of_length_le (by rw [List.length_append, List.length_singleton])
  have hrest : (List.range xs.length).map (fun i => (xs ++ [x]).take (i + 1)) =
      (List.range xs.length).map fun i => xs.take (i + 1) := by
    apply List.map_congr_left
    intro i hi
    rw [List.mem_range] at hi
    exact List.take_append_of_le_length hi
  rw [hrest, List.map_singleton, hlast]
  rfl

theorem mem_prefixes : p ∈ prefixes xs ↔ p ≠ [] ∧ p <+: xs := by
  induction xs using List.reverseRecOn with
  | nil => simp [prefixes]
  | append_singleton xs x ih =>
    rw [prefixes_concat, List.mem_cons, ih, List.prefix_concat_iff]
    constructor
    · rintro (rfl | ⟨hne, hp⟩)
      · exact ⟨List.append_ne_nil_of_right_ne_nil xs (List.cons_ne_nil x []), .inl rfl⟩
      · exact ⟨hne, .inr hp⟩
    · rintro ⟨hne, rfl | hp⟩
      · exact .inl rfl
      · exact .inr ⟨hne, hp⟩

theorem longestFound_eq_none_iff :
    longestFound find xs = none ↔ ∀ p, p ≠ [] → p <+: xs → find p = none := by
  unfold longestFound
  rw [List.findSome?_eq_none_iff]
  exact forall_congr' fun p => by rw [mem_prefixes, and_imp]

theorem longestFound_eq_some_iff : longestFound find xs = some a ↔
    ∃ p, p ≠ [] ∧ p <+: xs ∧ find p = some a ∧
      ∀ q, q <+: xs → p.length < q.length → find q = none := by
  induction xs using List.reverseRecOn with
  | nil =>
    refine iff_of_false (by simp [longestFound, prefixes]) ?_
    rintro ⟨p, hne, hp, -⟩
    exact hne (List.prefix_nil.mp hp)
  | append_singleton xs x ih =>
    have hwhole : longestFound find (xs ++ [x]) =
        (find (xs ++ [x])).or (longestFound find xs) := by
      unfold longestFound
      rw [prefixes_concat, List.findSome?_cons]
      cases find (xs ++ [x]) <;> rfl
    rw [hwhole]
    cases hfind : find (xs ++ [x]) with
    | some b =>
      rw [Option.some_or, Option.some.injEq]
      constructor
      · rintro rfl
        refine ⟨xs ++ [x], ?_, List.prefix_rfl, hfind, fun q hq hlt => ?_⟩
        · exact List.append_ne_nil_of_right_ne_nil xs (List.cons_ne_nil x [])
        · exact absurd hq.length_le (by omega)
      · rintro ⟨p, -, hp, hfound, hlongest⟩
        by_cases hlt : p.length < (xs ++ [x]).length
        · rw [hlongest _ List.prefix_rfl hlt] at hfind
          cases hfind
        · rw [hp.eq_of_length_le (by omega), hfind] at hfound
          exact Option.some.inj hfound
    | none =>
      rw [Option.none_or, ih]
      constructor
      · rintro ⟨p, hne, hp, hfound, hlongest⟩
        refine ⟨p, hne, hp.trans (List.prefix_append xs [x]), hfound, fun q hq hlt => ?_⟩
        rcases List.prefix_concat_iff.mp hq with rfl | hq
        · exact hfind
        · exact hlongest q hq hlt
      · rintro ⟨p, hne, hp, hfound, hlongest⟩
        rcases List.prefix_concat_iff.mp hp with rfl | hp
        · rw [hfind] at hfound
          cases hfound
        · exact ⟨p, hne, hp, hfound, fun q hq => hlongest q (hq.trans (List.prefix_append xs [x]))⟩

theorem longestFound_mono (hxy : xs <+: ys) (h : longestFound find xs = some a) :
    ∃ p q b, p ≠ [] ∧ p <+: q ∧ q <+: ys ∧ find p = some a ∧ find q = some b ∧
      longestFound find ys = some b := by
  obtain ⟨p, hne, hp, hfound, -⟩ := longestFound_eq_some_iff.mp h
  cases hys : longestFound find ys with
  | none =>
    rw [longestFound_eq_none_iff.mp hys p hne (hp.trans hxy)] at hfound
    cases hfound
  | some b =>
    obtain ⟨q, -, hq, hqfound, hlongest⟩ := longestFound_eq_some_iff.mp hys
    refine ⟨p, q, b, hne, ?_, hq, hfound, hqfound, rfl⟩
    apply List.prefix_of_prefix_length_le (hp.trans hxy) hq
    by_contra hlt
    rw [hlongest p (hp.trans hxy) (by omega)] at hfound
    cases hfound

end Prefixes

end Lib
