import Sentora.Lib.PageCuts
import Sentora.Lib.StableSort

namespace Lib

section MergedPages

variable {α κ : Type} [LinearOrder κ] {key : α → κ} {size bound : Nat} {l xs ys : List α}
  {v : α} {i j m k : Nat}

def fetched (size bound k : Nat) : Nat := min ((k + 1) * size) bound

def merged (key : α → κ) (size bound : Nat) (xs ys : List α) (k : Nat) : List α :=
  sortBy key (xs.take (fetched size bound k) ++ ys.take (fetched size bound k))

def mergedPages (key : α → κ) (size bound : Nat) (xs ys : List α) : List α :=
  pages size (pageCount size (xs.length + ys.length)) (merged key size bound xs ys)

def pageEnd (size rank : Nat) : Nat := (rank / size + 1) * size

def Taken (key : α → κ) (size bound start : Nat) (both l : List α) : Prop :=
  ∀ i v, l[i]? = some v →
    i < min (pageEnd size (rankOf key both (start + i) v)) bound

theorem mem_take_iff_of_nodup (hnodup : l.Nodup) (h : l[i]? = some v) :
    v ∈ l.take m ↔ i < m := by
  constructor
  · intro hv
    obtain ⟨j, hj, hget⟩ := List.mem_take_iff_getElem.mp hv
    obtain ⟨hi, hget'⟩ := List.getElem?_eq_some_iff.mp h
    have hij : i = j := hnodup.getElem_inj_iff.mp (hget'.trans hget.symm)
    omega
  · intro hi
    exact List.mem_of_getElem? ((List.getElem?_take_of_lt hi).trans h)

theorem mem_take_sortBy_iff (hnodup : l.Nodup) (h : l[i]? = some v) :
    v ∈ (sortBy key l).take m ↔ rankOf key l i v < m :=
  mem_take_iff_of_nodup ((perm_sortBy key _).nodup_iff.mpr hnodup) (getElem?_sortBy h)

theorem lt_pageEnd (hsize : 0 < size) (r : Nat) : r < pageEnd size r := by
  have hdiv := Nat.div_add_mod r size
  have hmod := Nat.mod_lt r hsize
  rw [pageEnd, Nat.succ_mul, Nat.mul_comm]
  omega

theorem pageEnd_le {r : Nat} (h : r < (k + 1) * size) : pageEnd size r ≤ (k + 1) * size := by
  rw [Nat.mul_comm] at h
  exact Nat.mul_le_mul_right size (Nat.div_lt_of_lt_mul h)

theorem merged_sublist :
    (merged key size bound xs ys k).Sublist (sortBy key (xs ++ ys)) :=
  sortBy_sublist ((List.take_sublist _ xs).append (List.take_sublist _ ys))

theorem mem_merged :
    v ∈ merged key size bound xs ys k ↔
      v ∈ xs.take (fetched size bound k) ∨ v ∈ ys.take (fetched size bound k) := by
  rw [merged, (perm_sortBy key _).mem_iff, List.mem_append]

theorem div_lt_pageCount (hsize : 0 < size) {r total : Nat} (h : r < total) :
    r / size < pageCount size total := by
  have hle := @length_le_pageCount size hsize total
  rw [Nat.mul_comm] at hle
  exact Nat.div_lt_of_lt_mul (h.trans_le hle)

theorem taken_iff (hsize : 0 < size) {start : Nat} {both : List α} (hnodup : both.Nodup)
    (hl : l.Nodup) (hindex : ∀ i v, l[i]? = some v → both[start + i]? = some v) :
    (∀ k < pageCount size both.length, ∀ v ∈ l,
        v ∈ (sortBy key both).take ((k + 1) * size) → v ∈ l.take (fetched size bound k)) ↔
      Taken key size bound start both l := by
  constructor
  · intro hall i v hget
    let r := rankOf key both (start + i) v
    have hlength : (sortBy key both).length = both.length := (perm_sortBy key _).length_eq
    have hstands : (sortBy key both)[r]? = some v := getElem?_sortBy (hindex i v hget)
    have hlt : r < both.length := hlength ▸ (List.getElem?_eq_some_iff.mp hstands).1
    have hfirst : v ∈ (sortBy key both).take ((r / size + 1) * size) :=
      (mem_take_sortBy_iff hnodup (hindex i v hget)).mpr (lt_pageEnd hsize r)
    exact (mem_take_iff_of_nodup hl hget).mp
      (hall _ (div_lt_pageCount hsize hlt) v (List.mem_of_getElem? hget) hfirst)
  · intro htaken k _ v hv hfirst
    obtain ⟨i, hget⟩ := List.mem_iff_getElem?.mp hv
    have hrank := (mem_take_sortBy_iff hnodup (hindex i v hget)).mp hfirst
    have hend := pageEnd_le hrank
    have hi := htaken i v hget
    refine (mem_take_iff_of_nodup hl hget).mpr ?_
    unfold fetched
    omega

theorem forall_mem_merged_iff (hsize : 0 < size) (hnodup : (xs ++ ys).Nodup) :
    (∀ k < pageCount size (xs ++ ys).length,
        ∀ v ∈ (sortBy key (xs ++ ys)).take ((k + 1) * size), v ∈ merged key size bound xs ys k) ↔
      Taken key size bound 0 (xs ++ ys) xs ∧
        Taken key size bound xs.length (xs ++ ys) ys := by
  obtain ⟨hxs, hys, -⟩ := List.nodup_append.mp hnodup
  have hdisjoint := List.disjoint_of_nodup_append hnodup
  have hfirst : ∀ i v, xs[i]? = some v → (xs ++ ys)[0 + i]? = some v := by
    intro i v hget
    rw [Nat.zero_add, List.getElem?_append_left (List.getElem?_eq_some_iff.mp hget).1, hget]
  have hsecond : ∀ i v, ys[i]? = some v → (xs ++ ys)[xs.length + i]? = some v := by
    intro i v hget
    rw [List.getElem?_append_right (Nat.le_add_right _ _), Nat.add_sub_cancel_left, hget]
  rw [← taken_iff hsize hnodup hxs hfirst, ← taken_iff hsize hnodup hys hsecond]
  constructor
  · intro hall
    constructor
    · intro k hk v hv hmem
      exact (mem_merged.mp (hall k hk v hmem)).resolve_right
        fun hother => hdisjoint hv (List.mem_of_mem_take hother)
    · intro k hk v hv hmem
      exact (mem_merged.mp (hall k hk v hmem)).resolve_left
        fun hother => hdisjoint (List.mem_of_mem_take hother) hv
  · intro ⟨hleft, hright⟩ k hk v hmem
    have hv := (perm_sortBy key _).mem_iff.mp (List.mem_of_mem_take hmem)
    rw [mem_merged]
    exact (List.mem_append.mp hv).imp (hleft k hk v · hmem) (hright k hk v · hmem)

theorem perm_iff_take (hsize : 0 < size) (hnodup : (xs ++ ys).Nodup) :
    (mergedPages key size bound xs ys).Perm (xs ++ ys) ↔
      ∀ k < pageCount size (sortBy key (xs ++ ys)).length,
        (merged key size bound xs ys k).take ((k + 1) * size) =
          (sortBy key (xs ++ ys)).take ((k + 1) * size) := by
  have hlength : xs.length + ys.length = (sortBy key (xs ++ ys)).length :=
    List.length_append.symm.trans (perm_sortBy key _).length_eq.symm
  have hsame : (mergedPages key size bound xs ys).Perm (xs ++ ys) ↔
      (mergedPages key size bound xs ys).Perm (sortBy key (xs ++ ys)) :=
    (perm_sortBy key _).symm.congr_right _
  rw [hsame, mergedPages, hlength]
  exact pages_perm_iff hsize ((perm_sortBy key _).nodup_iff.mpr hnodup) fun _ => merged_sublist

theorem mergedPages_perm_iff (hsize : 0 < size) (hnodup : (xs ++ ys).Nodup) :
    (mergedPages key size bound xs ys).Perm (xs ++ ys) ↔
      Taken key size bound 0 (xs ++ ys) xs ∧
        Taken key size bound xs.length (xs ++ ys) ys := by
  rw [perm_iff_take hsize hnodup, ← forall_mem_merged_iff hsize hnodup,
    (perm_sortBy key _).length_eq]
  exact forall₂_congr fun k _ =>
    take_eq_iff_of_sublist ((perm_sortBy key _).nodup_iff.mpr hnodup) merged_sublist

theorem mergedPages_eq (hsize : 0 < size) (hnodup : (xs ++ ys).Nodup)
    (h : (mergedPages key size bound xs ys).Perm (xs ++ ys)) :
    mergedPages key size bound xs ys = sortBy key (xs ++ ys) := by
  have hlength : xs.length + ys.length = (sortBy key (xs ++ ys)).length :=
    List.length_append.symm.trans (perm_sortBy key _).length_eq.symm
  have htake := (perm_iff_take hsize hnodup).mp h
  rw [mergedPages, hlength]
  exact pages_eq_of_take hsize htake

end MergedPages

end Lib
