import Mathlib.Data.List.Induction
import Mathlib.Order.Lattice

namespace Lib

section SlidingLog

variable {τ : Type} [LinearOrder τ] {cutoff sooner : τ → τ} {t u : τ} {xs ys zs : List τ}

def recent (cutoff : τ → τ) (t : τ) (log : List τ) : List τ := log.filter fun x => cutoff t < x

def SameFrom (cutoff : τ → τ) (t : τ) (xs ys : List τ) : Prop :=
  ∀ u, t ≤ u → recent cutoff u xs = recent cutoff u ys

theorem recent_append : recent cutoff t (xs ++ ys) = recent cutoff t xs ++ recent cutoff t ys :=
  List.filter_append ..

theorem recent_sublist : (recent cutoff t xs).Sublist xs := List.filter_sublist

theorem recent_eq_nil (h : ∀ x ∈ xs, x ≤ cutoff t) : recent cutoff t xs = [] := by
  refine List.filter_eq_nil_iff.mpr fun x hx => ?_
  rw [decide_eq_true_iff]
  exact (h x hx).not_gt

theorem recent_recent (hmono : Monotone cutoff) (h : t ≤ u) :
    recent cutoff u (recent cutoff t xs) = recent cutoff u xs := by
  unfold recent
  rw [List.filter_filter]
  refine List.filter_congr fun x _ => ?_
  rw [Bool.and_eq_left_iff_imp]
  intro hu
  exact decide_eq_true ((hmono h).trans_lt (of_decide_eq_true hu))

theorem SameFrom.trans (h : SameFrom cutoff t xs ys) (h' : SameFrom cutoff t ys zs) :
    SameFrom cutoff t xs zs :=
  fun u hu => (h u hu).trans (h' u hu)

theorem SameFrom.mono (h : SameFrom cutoff t xs ys) (htu : t ≤ u) : SameFrom cutoff u xs ys :=
  fun v hv => h v (htu.trans hv)

theorem SameFrom.append (h : SameFrom cutoff t xs ys) (zs : List τ) :
    SameFrom cutoff t (xs ++ zs) (ys ++ zs) := by
  intro u hu
  rw [recent_append, recent_append, h u hu]

theorem sameFrom_recent (hmono : Monotone cutoff) : SameFrom cutoff t (recent cutoff t xs) xs :=
  fun _ hu => recent_recent hmono hu

theorem sameFrom_nil (hmono : Monotone cutoff) (h : ∀ x ∈ xs, x ≤ cutoff t) :
    SameFrom cutoff t [] xs := by
  intro u hu
  exact (recent_eq_nil fun x hx => (h x hx).trans (hmono hu)).symm

/-- From `t` on, the list stands for the log; it is sorted, and has no time behind `t`. -/
structure Stands (cutoff : τ → τ) (t : τ) (kept log : List τ) : Prop where
  same : SameFrom cutoff t kept log
  sorted : kept.Pairwise (· ≤ ·)
  past : ∀ x ∈ kept, x ≤ t

variable {kept log : List τ}

theorem stands_nil : Stands cutoff t [] [] :=
  ⟨fun _ _ => rfl, List.Pairwise.nil, fun _ hx => nomatch hx⟩

theorem Stands.mono (h : Stands cutoff t kept log) (htu : t ≤ u) : Stands cutoff u kept log :=
  ⟨h.same.mono htu, h.sorted, fun x hx => (h.past x hx).trans htu⟩

theorem Stands.recent (h : Stands cutoff t kept log) (hmono : Monotone cutoff) :
    Stands cutoff t (recent cutoff t kept) log := by
  refine ⟨(sameFrom_recent hmono).trans h.same, h.sorted.sublist recent_sublist, fun x hx => ?_⟩
  exact h.past x (recent_sublist.subset hx)

theorem Stands.record (h : Stands cutoff t kept log) :
    Stands cutoff t (kept ++ [t]) (log ++ [t]) := by
  refine ⟨h.same.append [t], ?_, fun x hx => ?_⟩
  · refine List.pairwise_append.mpr ⟨h.sorted, List.pairwise_singleton .., fun x hx y hy => ?_⟩
    rw [List.mem_singleton.mp hy]
    exact h.past x hx
  · rcases List.mem_append.mp hx with hkept | hlast
    · exact h.past x hkept
    · exact (List.mem_singleton.mp hlast).le

/-- A list without a recent time may be dropped. -/
theorem Stands.drop (h : Stands cutoff t kept log) (hmono : Monotone cutoff)
    (hold : ∀ x ∈ kept, x ≤ cutoff t) : Stands cutoff t [] log :=
  ⟨(sameFrom_nil hmono hold).trans h.same, List.Pairwise.nil, fun _ hx => nomatch hx⟩

theorem Stands.le_of_getLast? {x : τ} (h : Stands cutoff t kept log)
    (hlast : kept.getLast? = some x)
    (hx : x ≤ u) : ∀ y ∈ kept, y ≤ u := by
  obtain ⟨front, rfl⟩ := List.getLast?_eq_some_iff.mp hlast
  intro y hy
  rcases List.mem_append.mp hy with hfront | hlast
  · exact ((List.pairwise_append.mp h.sorted).2.2 y hfront x List.mem_cons_self).trans hx
  · exact (List.mem_singleton.mp hlast).le.trans hx

end SlidingLog

section Prefixes

variable {α : Type} {l : List α} {a : α} {P : List α → α → Prop}

end Prefixes

section Admitted

variable {τ : Type} {room : List τ → τ → Bool} {times : List τ} {t : τ}

/-- The times that the rule has room for, behind those it let through before. -/
def admitted (room : List τ → τ → Bool) (times : List τ) : List τ :=
  times.foldl (fun log t => if room log t then log ++ [t] else log) []

theorem admitted_append : admitted room (times ++ [t]) =
    if room (admitted room times) t then admitted room times ++ [t] else admitted room times :=
  List.foldl_append ..

end Admitted

end Lib
