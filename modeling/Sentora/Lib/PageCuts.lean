import Mathlib.Data.List.Nodup
import Mathlib.Data.List.Perm.Basic
import Mathlib.Data.List.Perm.Subperm

namespace Lib

section Paging

variable {α : Type} {size : Nat} {l s t : List α} {v : α}

/-- The number of pages of some items. -/
def pageCount (size total : Nat) : Nat := (total + size - 1) / size

def pageOf (size k : Nat) (l : List α) : List α := (l.drop (k * size)).take size

def pages (size count : Nat) (lists : Nat → List α) : List α :=
  (List.range count).flatMap fun k => pageOf size k (lists k)

theorem pages_succ {count : Nat} {lists : Nat → List α} :
    pages size (count + 1) lists = pages size count lists ++ pageOf size count (lists count) := by
  unfold pages
  rw [List.range_succ, List.flatMap_append, List.flatMap_singleton]

theorem take_succ_page {k : Nat} :
    l.take ((k + 1) * size) = l.take (k * size) ++ pageOf size k l := by
  rw [Nat.succ_mul, List.take_add, pageOf]

theorem pageOf_take {k : Nat} : pageOf size k (l.take ((k + 1) * size)) = pageOf size k l := by
  rw [pageOf, List.drop_take, List.take_take, Nat.succ_mul, Nat.add_sub_cancel_left,
    Nat.min_self, pageOf]

theorem length_pageOf_le {k : Nat} : (pageOf size k l).length ≤ size := by
  rw [pageOf, List.length_take]
  exact Nat.min_le_left ..

theorem length_pages_le {count : Nat} {lists : Nat → List α} :
    (pages size count lists).length ≤ count * size := by
  induction count with
  | zero => exact Nat.zero_le _
  | succ count ih =>
    have hpage := @length_pageOf_le _ size (lists count) count
    rw [pages_succ, List.length_append, Nat.succ_mul]
    omega

theorem length_le_pageCount (hsize : 0 < size) {total : Nat} :
    total ≤ pageCount size total * size := by
  unfold pageCount
  have hdiv := Nat.div_add_mod (total + size - 1) size
  have hmod := Nat.mod_lt (total + size - 1) hsize
  rw [Nat.mul_comm] at hdiv
  omega

theorem mul_lt_of_lt_pageCount {total k : Nat} (h : k < pageCount size total) :
    k * size < total := by
  unfold pageCount at h
  have hmul := Nat.mul_le_of_le_div _ _ _ (Nat.succ_le_of_lt h)
  rw [Nat.succ_mul] at hmul
  rcases Nat.eq_zero_or_pos size with rfl | hsize
  · rw [Nat.div_zero] at h
    cases h
  · omega

theorem pages_eq_of_take (hsize : 0 < size) {lists : Nat → List α}
    (h : ∀ k < pageCount size t.length,
      (lists k).take ((k + 1) * size) = t.take ((k + 1) * size)) :
    pages size (pageCount size t.length) lists = t := by
  have hall : ∀ count ≤ pageCount size t.length,
      pages size count lists = t.take (count * size) := by
    intro count hcount
    induction count with
    | zero =>
      rw [Nat.zero_mul, List.take_zero]
      rfl
    | succ count ih =>
      rw [pages_succ, ih (by omega), take_succ_page, ← @pageOf_take _ size (lists count),
        h count (by omega), pageOf_take]
  rw [hall _ (Nat.le_refl _), List.take_of_length_le (length_le_pageCount hsize)]

/-- Some items of a list start as the list does if and only if they have its first ones. -/
theorem take_eq_iff_of_sublist (hnodup : t.Nodup) (h : s.Sublist t) {m : Nat} :
    s.take m = t.take m ↔ ∀ v ∈ t.take m, v ∈ s := by
  constructor
  · intro heq v hv
    exact List.mem_of_mem_take (heq ▸ hv)
  · intro hmem
    rw [← List.take_append_drop m t] at h hnodup
    obtain ⟨first, rest, rfl, hfirst, hrest⟩ := List.sublist_append_iff.mp h
    have hdisjoint := List.disjoint_of_nodup_append hnodup
    have hsub : t.take m ⊆ first := by
      intro v hv
      rcases List.mem_append.mp (hmem v hv) with hv' | hv'
      · exact hv'
      · exact absurd (hrest.subset hv') (hdisjoint hv)
    have hsame : first = t.take m :=
      hfirst.eq_of_length_le (List.Nodup.of_append_left hnodup |>.subperm hsub).length_le
    subst hsame
    rcases Nat.le_total m t.length with hle | hle
    · exact List.take_left' (List.length_take_of_le hle)
    · rw [List.drop_of_length_le hle] at hrest
      rw [List.sublist_nil.mp hrest, List.append_nil, List.take_take, Nat.min_self]

/-- If a page of some items of a list shows only first ones of the list, and as many as are
left, then the items start as the list does. -/
theorem take_eq_of_page (hsize : 0 < size) (hnodup : t.Nodup) (h : s.Sublist t) {k : Nat}
    (hlt : k * size < t.length) (hmem : ∀ v ∈ pageOf size k s, v ∈ t.take ((k + 1) * size))
    (hlength : (t.take ((k + 1) * size)).length ≤ k * size + (pageOf size k s).length) :
    s.take ((k + 1) * size) = t.take ((k + 1) * size) := by
  generalize hm : (k + 1) * size = m at hmem hlength ⊢
  rw [Nat.succ_mul] at hm
  rw [take_eq_iff_of_sublist hnodup h]
  have hsplit := h
  rw [← List.take_append_drop m t] at hsplit
  obtain ⟨first, rest, rfl, hfirst, hrest⟩ := List.sublist_append_iff.mp hsplit
  have hdisjoint : (t.take m).Disjoint (t.drop m) :=
    List.disjoint_of_nodup_append ((List.take_append_drop m t).symm ▸ hnodup)
  have hshort : (t.take m).length ≤ first.length := by
    by_contra hlong
    -- the last item of the page is among the rest
    have htake : (t.take m).length = min m t.length := List.length_take
    have hindex : (t.take m).length - 1 - k * size < (pageOf size k (first ++ rest)).length := by
      omega
    have hlast := hmem _ (List.getElem_mem hindex)
    have hget : (pageOf size k (first ++ rest))[(t.take m).length - 1 - k * size]? =
        rest[(t.take m).length - 1 - first.length]? := by
      rw [pageOf, List.getElem?_take_of_lt (by omega), List.getElem?_drop,
        List.getElem?_append_right (by omega)]
      congr 1
      omega
    rw [List.getElem?_eq_getElem hindex] at hget
    exact hdisjoint hlast (hrest.subset (List.mem_of_getElem? hget.symm))
  intro v hv
  rw [← hfirst.eq_of_length_le hshort] at hv
  exact List.mem_append_left rest hv

theorem pages_perm_iff (hsize : 0 < size) (hnodup : t.Nodup) {lists : Nat → List α}
    (h : ∀ k, (lists k).Sublist t) :
    (pages size (pageCount size t.length) lists).Perm t ↔
      ∀ k < pageCount size t.length,
        (lists k).take ((k + 1) * size) = t.take ((k + 1) * size) := by
  constructor
  · intro hperm
    -- from the last page on, what is left to the pages before is the start of the list
    have hback : ∀ count ≤ pageCount size t.length,
        (pages size count lists).Perm (t.take (count * size)) →
          ∀ k < count, (lists k).take ((k + 1) * size) = t.take ((k + 1) * size) := by
      intro count hcount
      induction count with
      | zero =>
        intro _ k hk
        cases hk
      | succ count ih =>
        intro hcountPerm
        have hpages := @length_pages_le _ size count lists
        have hlength := hcountPerm.length_eq
        rw [pages_succ] at hcountPerm hlength
        rw [List.length_append] at hlength
        have hlast : (lists count).take ((count + 1) * size) = t.take ((count + 1) * size) :=
          take_eq_of_page hsize hnodup (h count) (mul_lt_of_lt_pageCount hcount)
            (fun v hv => hcountPerm.subset (List.mem_append_right _ hv)) (by omega)
        rw [take_succ_page, ← @pageOf_take _ size (lists count), hlast, pageOf_take,
          List.perm_append_right_iff] at hcountPerm
        intro k hk
        rcases Nat.lt_succ_iff_lt_or_eq.mp hk with hearlier | rfl
        · exact ih (by omega) hcountPerm k hearlier
        · exact hlast
    refine hback _ (Nat.le_refl _) ?_
    rw [List.take_of_length_le (length_le_pageCount hsize)]
    exact hperm
  · intro htake
    rw [pages_eq_of_take hsize htake]

end Paging

end Lib
