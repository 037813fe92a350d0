import Sentora.Lib.RangeSort

namespace Lib

section StableSort

variable {α κ : Type} [LinearOrder κ] {key : α → κ} {a v : α} {l before after : List α}

/-- The number of items that stand before the item of an index. -/
def rankOf (key : α → κ) (l : List α) (i : Nat) (v : α) : Nat :=
  l.countP (fun a => key a < key v) + (l.take i).countP fun a => key a = key v

instance total_key : Std.Total fun a b : α => key a ≤ key b := ⟨fun a b => le_total (key a) (key b)⟩

instance trans_key : IsTrans α fun a b => key a ≤ key b := ⟨fun _ _ _ hab hbc => hab.trans hbc⟩

theorem pairwise_sortBy : (sortBy key l).Pairwise fun a b => key a ≤ key b :=
  List.pairwise_insertionSort _ l

theorem sortBy_sublist {s : List α} (h : s.Sublist l) :
    (sortBy key s).Sublist (sortBy key l) := by
  induction h with
  | slnil => exact List.Sublist.slnil
  | cons a _ ih => exact ih.trans (List.sublist_orderedInsert a _)
  | cons_cons a _ ih => exact ih.orderedInsert_sublist a pairwise_sortBy

theorem orderedInsert_self (h : l.Pairwise fun a b => key a ≤ key b) :
    ∃ p q, l.orderedInsert (fun a b => key a ≤ key b) v = p ++ v :: q ∧
      p.length = l.countP fun a => key a < key v := by
  induction l with
  | nil => exact ⟨[], [], rfl, rfl⟩
  | cons b rest ih =>
    obtain ⟨hfirst, hrest⟩ := List.pairwise_cons.mp h
    rw [List.orderedInsert_cons]
    by_cases hle : key v ≤ key b
    · have hnone : (b :: rest).countP (fun a => key a < key v) = 0 := by
        rw [List.countP_eq_zero]
        intro a ha
        rw [decide_eq_true_iff, not_lt]
        rcases List.mem_cons.mp ha with rfl | hlater
        · exact hle
        · exact hle.trans (hfirst a hlater)
      rw [if_pos hle]
      exact ⟨[], b :: rest, rfl, hnone.symm⟩
    · obtain ⟨p, q, heq, hlength⟩ := ih hrest
      rw [if_neg hle, heq]
      refine ⟨b :: p, q, rfl, ?_⟩
      rw [List.countP_cons, if_pos (decide_eq_true (not_le.mp hle)), List.length_cons, hlength]

theorem orderedInsert_other {p q : List α}
    (h : (p ++ v :: q).Pairwise fun a b => key a ≤ key b) :
    ∃ p' q', (p ++ v :: q).orderedInsert (fun a b => key a ≤ key b) a = p' ++ v :: q' ∧
      p'.length = p.length + if key a ≤ key v then 1 else 0 := by
  induction p with
  | nil =>
    rw [List.nil_append, List.orderedInsert_cons]
    by_cases hle : key a ≤ key v
    · rw [if_pos hle, if_pos hle]
      exact ⟨[a], q, rfl, rfl⟩
    · rw [if_neg hle, if_neg hle]
      exact ⟨[], _, rfl, rfl⟩
  | cons b p ih =>
    rw [List.cons_append] at h ⊢
    obtain ⟨hfirst, hrest⟩ := List.pairwise_cons.mp h
    have hbv : key b ≤ key v := hfirst v (List.mem_append_right _ List.mem_cons_self)
    rw [List.orderedInsert_cons]
    by_cases hle : key a ≤ key b
    · rw [if_pos hle, if_pos (hle.trans hbv)]
      exact ⟨a :: b :: p, q, rfl, rfl⟩
    · obtain ⟨p', q', heq, hlength⟩ := ih hrest
      rw [if_neg hle, heq]
      refine ⟨b :: p', q', rfl, ?_⟩
      rw [List.length_cons, List.length_cons, hlength]
      omega

theorem sortBy_split :
    ∃ p q, sortBy key (before ++ v :: after) = p ++ v :: q ∧
      p.length = before.countP (fun a => key a ≤ key v) +
        after.countP fun a => key a < key v := by
  induction before with
  | nil =>
    obtain ⟨p, q, heq, hlength⟩ :=
      @orderedInsert_self _ _ _ key v _ (@pairwise_sortBy _ _ _ key after)
    refine ⟨p, q, heq, ?_⟩
    rw [hlength, (perm_sortBy key after).countP_eq, List.countP_nil, Nat.zero_add]
  | cons a before ih =>
    obtain ⟨p, q, heq, hlength⟩ := ih
    have hsorted := @pairwise_sortBy _ _ _ key (before ++ v :: after)
    rw [heq] at hsorted
    obtain ⟨p', q', heq', hlength'⟩ := @orderedInsert_other _ _ _ key a v p q hsorted
    refine ⟨p', q', ?_, ?_⟩
    · rw [← heq', ← heq]
      rfl
    · rw [hlength', hlength, List.countP_cons]
      simp only [decide_eq_true_iff]
      omega

theorem countP_le (l : List α) :
    l.countP (fun a => key a ≤ key v) =
      l.countP (fun a => key a < key v) + l.countP fun a => key a = key v := by
  induction l with
  | nil => rfl
  | cons a rest ih =>
    rw [List.countP_cons, List.countP_cons, List.countP_cons, ih]
    simp only [decide_eq_true_iff]
    rcases lt_trichotomy (key a) (key v) with hlt | heq | hgt
    · rw [if_pos hlt.le, if_pos hlt, if_neg hlt.ne]
      omega
    · rw [if_pos heq.le, if_neg heq.not_lt, if_pos heq]
      omega
    · rw [if_neg hgt.not_ge, if_neg hgt.not_gt, if_neg hgt.ne']
      omega

theorem getElem?_sortBy {i : Nat} (h : l[i]? = some v) :
    (sortBy key l)[rankOf key l i v]? = some v := by
  obtain ⟨hlt, hget⟩ := List.getElem?_eq_some_iff.mp h
  have hsplit : l = l.take i ++ v :: l.drop (i + 1) := by
    rw [← hget, List.getElem_cons_drop, List.take_append_drop]
  obtain ⟨p, q, heq, hlength⟩ :=
    @sortBy_split _ _ _ key v (l.take i) (l.drop (i + 1))
  rw [← hsplit] at heq
  have hrank : rankOf key l i v = p.length := by
    have hcount : l.countP (fun a => key a < key v) =
        (l.take i ++ v :: l.drop (i + 1)).countP fun a => key a < key v :=
      congrArg _ hsplit
    rw [List.countP_append, List.countP_cons_of_neg (by simp)] at hcount
    rw [rankOf, hcount, hlength, countP_le]
    omega
  rw [heq, hrank, List.getElem?_append_right (Nat.le_refl _), Nat.sub_self]
  rfl

end StableSort

section Largest

variable {α κ : Type} [LinearOrder κ] {key : α → κ} {n : Nat} {shown all : List α}

/-- The items with the `n` largest keys, or all of them, from the largest key on. -/
structure IsLargest (n : Nat) (key : α → κ) (shown all : List α) : Prop where
  length : shown.length = min n all.length
  sorted : shown.Pairwise fun a b => key b ≤ key a
  largest : ∃ rest, (shown ++ rest).Perm all ∧ ∀ a ∈ shown, ∀ b ∈ rest, key b ≤ key a

theorem isLargest_take {l : List α} (h : l.Perm all) :
    IsLargest n key ((sortBy (fun a => OrderDual.toDual (key a)) l).take n) all := by
  have hsorted : (sortBy (fun a => OrderDual.toDual (key a)) l).Pairwise fun a b =>
      key b ≤ key a := @pairwise_sortBy _ _ _ (fun a => OrderDual.toDual (key a)) l
  have hperm := (perm_sortBy (fun a => OrderDual.toDual (key a)) l).trans h
  refine ⟨?_, hsorted.sublist (List.take_sublist n _),
    (sortBy (fun a => OrderDual.toDual (key a)) l).drop n, ?_, ?_⟩
  · rw [List.length_take, hperm.length_eq]
  · rw [List.take_append_drop]
    exact hperm
  · rw [← List.take_append_drop n (sortBy _ l), List.pairwise_append] at hsorted
    exact hsorted.2.2

theorem IsLargest.perm (h : IsLargest n key shown all) (hle : all.length ≤ n) :
    shown.Perm all := by
  obtain ⟨rest, hperm, -⟩ := h.largest
  have hlength := hperm.length_eq
  rw [List.length_append, h.length, Nat.min_eq_right hle] at hlength
  have hnil : rest = [] := List.eq_nil_of_length_eq_zero (by omega)
  rw [hnil, List.append_nil] at hperm
  exact hperm

end Largest

end Lib
