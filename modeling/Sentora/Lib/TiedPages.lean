import Sentora.Lib.PageCuts
import Sentora.Lib.StableSort

namespace Lib

section TiedPages

variable {α κ : Type} [LinearOrder κ] {key : α → κ} {size n k : Nat} {t l m : List α} {x y : α}

structure Listing (key : α → κ) (t l : List α) : Prop where
  perm : l.Perm t
  sorted : l.Pairwise fun a b => key a ≤ key b

theorem listing_sortBy : Listing key t (sortBy key t) := ⟨perm_sortBy key t, pairwise_sortBy⟩

/-- No item before a cut of the sorted items has the key of one behind it. -/
def Untied (key : α → κ) (t : List α) (n : Nat) : Prop :=
  ∀ x ∈ (sortBy key t).take n, ∀ y ∈ (sortBy key t).drop n, key x ≠ key y

instance Untied.decidable : Decidable (Untied key t n) :=
  inferInstanceAs (Decidable (∀ x ∈ (sortBy key t).take n, ∀ y ∈ (sortBy key t).drop n, _))

theorem Listing.keys (hl : Listing key t l) (hm : Listing key t m) : l.map key = m.map key := by
  refine ((hl.perm.trans hm.perm.symm).map key).eq_of_pairwise (fun a b _ _ => le_antisymm) ?_ ?_
  · exact List.pairwise_map.mpr hl.sorted
  · exact List.pairwise_map.mpr hm.sorted

/-- What is before a cut that no tie crosses. -/
theorem Listing.take_eq_filter (hl : Listing key t l) (h : Untied key t n) :
    l.take n = l.filter fun a => key a ∈ ((sortBy key t).take n).map key := by
  have hkeys := hl.keys listing_sortBy
  conv_rhs => rw [← List.take_append_drop n l]
  have hfirst : (l.take n).filter (fun a => key a ∈ ((sortBy key t).take n).map key) =
      l.take n := by
    rw [List.filter_eq_self]
    intro a ha
    rw [decide_eq_true_iff, List.map_take, ← hkeys, ← List.map_take]
    exact List.mem_map_of_mem ha
  have hrest : (l.drop n).filter (fun a => key a ∈ ((sortBy key t).take n).map key) = [] := by
    rw [List.filter_eq_nil_iff]
    intro a ha
    rw [decide_eq_true_iff]
    intro hbefore
    have hbehind : key a ∈ ((sortBy key t).drop n).map key := by
      rw [List.map_drop, ← hkeys, ← List.map_drop]
      exact List.mem_map_of_mem ha
    obtain ⟨x, hx, hkx⟩ := List.mem_map.mp hbefore
    obtain ⟨y, hy, hky⟩ := List.mem_map.mp hbehind
    exact h x hx y hy (hkx.trans hky.symm)
  rw [List.filter_append, hfirst, hrest, List.append_nil]

theorem Listing.take_perm (hl : Listing key t l) (hm : Listing key t m) (h : Untied key t n) :
    (l.take n).Perm (m.take n) := by
  rw [hl.take_eq_filter h, hm.take_eq_filter h]
  exact (hl.perm.trans hm.perm.symm).filter _

theorem Listing.pageOf_perm (hl : Listing key t l) (hm : Listing key t m)
    (hbefore : Untied key t (k * size)) (hbehind : Untied key t ((k + 1) * size)) :
    (pageOf size k l).Perm (pageOf size k m) := by
  have hall := hl.take_perm hm hbehind
  rw [take_succ_page, take_succ_page] at hall
  exact (List.perm_append_left_iff _).mp
    (((hl.take_perm hm hbefore).symm.append_right _).trans hall)

theorem untied_of_length_le (h : t.length ≤ n) : Untied key t n := by
  intro x _ y hy
  rw [List.drop_of_length_le (by rwa [(perm_sortBy key t).length_eq])] at hy
  cases hy

theorem mem_pageOf :
    x ∈ pageOf size k l ↔ ∃ i, k * size ≤ i ∧ i < (k + 1) * size ∧ l[i]? = some x := by
  rw [pageOf, List.mem_iff_getElem?, Nat.succ_mul]
  constructor
  · rintro ⟨i, hi⟩
    have hlt : i < size := by
      by_contra hge
      rw [List.getElem?_take, if_neg hge] at hi
      cases hi
    rw [List.getElem?_take_of_lt hlt, List.getElem?_drop] at hi
    exact ⟨k * size + i, by omega, by omega, hi⟩
  · rintro ⟨i, hle, hlt, hget⟩
    refine ⟨i - k * size, ?_⟩
    rw [List.getElem?_take_of_lt (by omega), List.getElem?_drop, ← hget]
    congr 1
    omega

/-- Where a tie crosses a cut, the two items next to it can be exchanged. -/
theorem exists_swap (h : ¬Untied key t n) :
    ∃ before x y rest, Listing key t (before ++ x :: y :: rest) ∧
      Listing key t (before ++ y :: x :: rest) ∧ before.length + 1 = n := by
  have hlisting := @listing_sortBy _ _ _ key t
  have hsplit := List.take_append_drop n (sortBy key t)
  simp only [Untied, not_forall, not_not] at h
  obtain ⟨a, ha, b, hb, heq⟩ := h
  obtain ⟨before, x, hx⟩ := (List.eq_nil_or_concat' _).resolve_left (List.ne_nil_of_mem ha)
  obtain ⟨y, rest, hy⟩ := List.exists_cons_of_ne_nil (List.ne_nil_of_mem hb)
  have hlength : before.length + 1 = n := by
    have htake := congrArg List.length hx
    have hdrop := congrArg List.length hy
    rw [List.length_take, List.length_append, List.length_singleton] at htake
    rw [List.length_drop, List.length_cons] at hdrop
    omega
  rw [hx, hy] at hsplit
  have hwhole : sortBy key t = before ++ x :: y :: rest := by
    rw [← hsplit, List.append_assoc]
    rfl
  rw [hx] at ha
  rw [hy] at hb
  rw [hwhole] at hlisting
  have hpairs := hlisting.sorted
  rw [List.pairwise_append, List.pairwise_cons, List.pairwise_cons] at hpairs
  obtain ⟨_, ⟨hxrest, hyrest, _⟩, hbefore⟩ := hpairs
  -- all keys from the one item with the tied key to the other are equal
  have hkey : key x = key y := by
    have hax : key a ≤ key x := by
      rcases List.mem_append.mp ha with hin | hin
      · exact hbefore a hin x List.mem_cons_self
      · rw [List.mem_singleton.mp hin]
    have hyb : key y ≤ key b := by
      rcases List.mem_cons.mp hb with rfl | hin
      · exact le_rfl
      · exact hyrest b hin
    exact le_antisymm (hxrest y List.mem_cons_self) (hyb.trans (heq ▸ hax))
  refine ⟨before, x, y, rest, hlisting, ⟨?_, ?_⟩, hlength⟩
  · exact ((List.Perm.swap x y rest).append_left before).trans hlisting.perm
  · have hsorted := List.pairwise_map.mpr hlisting.sorted
    apply List.pairwise_map.mp
    rwa [List.map_append, List.map_cons, List.map_cons, ← hkey, hkey, ← hkey] at hsorted ⊢

theorem forall_pages_perm_iff (hsize : 0 < size) (hnodup : t.Nodup) :
    (∀ lists : Nat → List α, (∀ k, Listing key t (lists k)) →
        (pages size (pageCount size t.length) lists).Perm t) ↔
      ∀ k < pageCount size t.length, Untied key t (k * size) := by
  constructor
  · intro hall k hk
    by_contra htied
    obtain ⟨before, x, y, rest, hone, hother, hlength⟩ := exists_swap htied
    have hnodup' : (before ++ x :: y :: rest).Nodup := hone.perm.nodup_iff.mpr hnodup
    have hlists : ∀ j, Listing key t
        (if j = k then before ++ y :: x :: rest else before ++ x :: y :: rest) := by
      intro j
      split
      · exact hother
      · exact hone
    have hperm := hall _ hlists
    -- the second of the two items is on no page
    have hy : y ∈ before ++ x :: y :: rest := by simp
    obtain ⟨j, _, hj⟩ := List.mem_flatMap.mp (hperm.mem_iff.mpr (hone.perm.mem_iff.mp hy))
    have hat : ∀ {l' : List α} {i i' : Nat}, l'.Nodup → l'[i]? = some y → l'[i']? = some y →
        i = i' := by
      intro l' i i' hl' hi hi'
      obtain ⟨hlt, heq⟩ := List.getElem?_eq_some_iff.mp hi
      obtain ⟨hlt', heq'⟩ := List.getElem?_eq_some_iff.mp hi'
      exact hl'.getElem_inj_iff.mp (heq.trans heq'.symm)
    obtain ⟨i, hle, hlt, hget⟩ := mem_pageOf.mp hj
    dsimp only at hget
    by_cases hjk : j = k
    · rw [if_pos hjk] at hget
      have hy' : (before ++ y :: x :: rest)[before.length]? = some y := by simp
      have hindex := hat (hother.perm.nodup_iff.mpr hnodup) hget hy'
      rw [hjk] at hle
      omega
    · rw [if_neg hjk] at hget
      have hy' : (before ++ x :: y :: rest)[before.length + 1]? = some y := by simp
      have hindex := hat hnodup' hget hy'
      rw [hindex, hlength] at hle hlt
      have hjk' := Nat.le_of_mul_le_mul_right hle hsize
      have hkj := Nat.lt_of_mul_lt_mul_right hlt
      omega
  · intro huntied lists hlists
    have hbase : (pages size (pageCount size t.length) fun _ => sortBy key t) = sortBy key t := by
      rw [← (perm_sortBy key t).length_eq]
      exact pages_eq_of_take hsize fun _ _ => rfl
    have hperm : (pages size (pageCount size t.length) lists).Perm
        (pages size (pageCount size t.length) fun _ => sortBy key t) := by
      refine List.Perm.flatMap_left _ fun k hk => ?_
      have hk' := List.mem_range.mp hk
      refine (hlists k).pageOf_perm listing_sortBy (huntied k hk') ?_
      by_cases hlast : k + 1 < pageCount size t.length
      · exact huntied (k + 1) hlast
      · refine untied_of_length_le ((length_le_pageCount hsize).trans ?_)
        exact Nat.mul_le_mul_right size (by omega)
    rw [hbase] at hperm
    exact hperm.trans (perm_sortBy key t)

end TiedPages

end Lib
