import Mathlib.Algebra.BigOperators.Group.List.Basic
import Mathlib.Algebra.GroupWithZero.Nat
import Mathlib.Data.List.Dedup
import Mathlib.Data.List.Induction

namespace Lib

variable {α β κ : Type} [DecidableEq κ]

def firstKeys (ks : List κ) : List κ := ks.reverse.dedup.reverse

def groupsBy (key : α → κ) (xs : List α) : List (κ × List α) :=
  (firstKeys (xs.map key)).map fun k => (k, xs.filter fun a => key a = k)

section Groups

variable {key : α → κ} {k : κ} {ks : List κ} {xs : List α} {g : κ × List α}

@[simp] theorem mem_firstKeys : k ∈ firstKeys ks ↔ k ∈ ks := by
  rw [firstKeys, List.mem_reverse, List.mem_dedup, List.mem_reverse]

theorem nodup_firstKeys : (firstKeys ks).Nodup := List.nodup_reverse.mpr (List.nodup_dedup _)

theorem firstKeys_concat : firstKeys (ks ++ [k]) =
    if k ∈ ks then firstKeys ks else firstKeys ks ++ [k] := by
  unfold firstKeys
  rw [List.reverse_concat, List.dedup_cons]
  by_cases hk : k ∈ ks
  · rw [if_pos (List.mem_reverse.mpr hk), if_pos hk]
  · rw [if_neg fun h => hk (List.mem_reverse.mp h), if_neg hk, List.reverse_cons]

theorem findSome?_firstKeys {β : Type} {f : κ → Option β} :
    (firstKeys ks).findSome? f = ks.findSome? f := by
  induction ks using List.reverseRecOn with
  | nil => rfl
  | append_singleton ks k ih =>
    rw [firstKeys_concat, List.findSome?_append]
    by_cases hk : k ∈ ks
    · rw [if_pos hk, ih]
      cases hfound : ks.findSome? f with
      | some b => rfl
      | none => simp [List.findSome?_eq_none_iff.mp hfound k hk]
    · rw [if_neg hk, List.findSome?_append, ih]

/-- As many keys as items: no key is shared. -/
theorem length_dedup_eq_iff : ks.dedup.length = ks.length ↔ ks.Nodup := by
  rw [← List.dedup_eq_self]
  exact ⟨(List.dedup_sublist ks).eq_of_length, fun h => congrArg List.length h⟩

theorem keys_groupsBy : (groupsBy key xs).map Prod.fst = firstKeys (xs.map key) := by
  rw [groupsBy, List.map_map]
  exact List.map_id _

theorem mem_groupsBy :
    g ∈ groupsBy key xs ↔ g.1 ∈ xs.map key ∧ g.2 = xs.filter fun a => key a = g.1 := by
  rw [groupsBy, List.mem_map]
  constructor
  · intro ⟨k, hk, heq⟩
    rw [← heq]
    exact ⟨mem_firstKeys.mp hk, rfl⟩
  · intro ⟨hk, heq⟩
    exact ⟨g.1, mem_firstKeys.mpr hk, Prod.ext rfl heq.symm⟩

theorem ne_nil_of_mem_groupsBy (h : g ∈ groupsBy key xs) : g.2 ≠ [] := by
  obtain ⟨hk, heq⟩ := mem_groupsBy.mp h
  obtain ⟨a, ha, hkey⟩ := List.mem_map.mp hk
  rw [heq]
  exact List.ne_nil_of_mem (List.mem_filter.mpr ⟨ha, decide_eq_true hkey⟩)

theorem key_of_mem_group {a : α} (h : g ∈ groupsBy key xs) (ha : a ∈ g.2) : key a = g.1 := by
  rw [(mem_groupsBy.mp h).2] at ha
  exact of_decide_eq_true (List.mem_filter.mp ha).2

def firstOfEach (key : α → κ) (xs : List α) : List α :=
  (groupsBy key xs).filterMap fun g => g.2.head?

theorem mem_of_mem_firstOfEach {a : α} (h : a ∈ firstOfEach key xs) : a ∈ xs := by
  obtain ⟨g, hg, hhead⟩ := List.mem_filterMap.mp h
  have ha := List.mem_of_mem_head? hhead
  rw [(mem_groupsBy.mp hg).2] at ha
  exact (List.mem_filter.mp ha).1

theorem mem_firstOfEach_iff {a : α} :
    a ∈ firstOfEach key xs ↔ xs.find? (fun b => key b = key a) = some a := by
  rw [firstOfEach, List.mem_filterMap]
  constructor
  · rintro ⟨g, hg, hhead⟩
    have hkey : key a = g.1 := key_of_mem_group hg (List.mem_of_mem_head? hhead)
    rw [(mem_groupsBy.mp hg).2, List.head?_filter] at hhead
    rw [hkey]
    exact hhead
  · intro hfind
    have hmem := List.mem_of_find?_eq_some hfind
    refine ⟨(key a, xs.filter fun b => key b = key a),
      mem_groupsBy.mpr ⟨List.mem_map_of_mem hmem, rfl⟩, ?_⟩
    rw [List.head?_filter]
    exact hfind

theorem keys_firstOfEach : (firstOfEach key xs).map key = firstKeys (xs.map key) := by
  have hkeys : ∀ groups : List (κ × List α), (∀ g ∈ groups, g.2 ≠ [] ∧ ∀ a ∈ g.2, key a = g.1) →
      (groups.filterMap fun g => g.2.head?).map key = groups.map Prod.fst := by
    intro groups hgroups
    induction groups with
    | nil => rfl
    | cons g rest ih =>
      obtain ⟨hne, hkey⟩ := hgroups g List.mem_cons_self
      obtain ⟨a, items, hitems⟩ := List.exists_cons_of_ne_nil hne
      have hhead : g.2.head? = some a := by rw [hitems, List.head?_cons]
      have hrest := ih fun g hg => hgroups g (List.mem_cons_of_mem _ hg)
      have hfirst : ((g :: rest).filterMap fun g => g.2.head?) =
          a :: rest.filterMap fun g => g.2.head? := List.filterMap_cons_some hhead
      rw [hfirst, List.map_cons, List.map_cons, hrest, hkey a (List.mem_of_mem_head? hhead)]
  rw [firstOfEach, hkeys _ fun g hg => ⟨ne_nil_of_mem_groupsBy hg, fun a => key_of_mem_group hg⟩,
    keys_groupsBy]

theorem perm_flatMap_filter (hks : ks.Nodup) (hmem : ∀ a ∈ xs, key a ∈ ks) :
    (ks.flatMap fun k => xs.filter fun a => key a = k).Perm xs := by
  induction xs with
  | nil =>
    rw [List.flatMap_eq_nil_iff.mpr fun k _ => List.filter_nil]
  | cons a rest ih =>
    have hrest := ih fun b hb => hmem b (List.mem_cons_of_mem a hb)
    obtain ⟨before, after, hsplit⟩ := List.append_of_mem (hmem a List.mem_cons_self)
    have hother : ∀ k ∈ before ++ after, k ≠ key a := by
      rw [hsplit] at hks
      intro k hk heq
      rw [List.nodup_middle, List.nodup_cons] at hks
      exact hks.1 (heq ▸ hk)
    have hsame : ∀ l : List κ, (∀ k ∈ l, k ≠ key a) →
        (l.flatMap fun k => (a :: rest).filter fun b => key b = k) =
          l.flatMap fun k => rest.filter fun b => key b = k := by
      intro l hl
      refine List.flatMap_congr fun k hk => ?_
      exact List.filter_cons_of_neg (by simpa using fun heq => hl k hk heq.symm)
    have hself : ((a :: rest).filter fun b => key b = key a) =
        a :: rest.filter fun b => key b = key a := List.filter_cons_of_pos (decide_eq_true rfl)
    rw [hsplit, List.flatMap_append, List.flatMap_cons] at hrest ⊢
    rw [hsame before fun k hk => hother k (List.mem_append_left _ hk),
      hsame after fun k hk => hother k (List.mem_append_right _ hk), hself, List.cons_append]
    exact List.perm_middle.trans (hrest.cons a)

theorem perm_flatMap_groupsBy : ((groupsBy key xs).flatMap Prod.snd).Perm xs := by
  rw [groupsBy, List.flatMap_map]
  exact perm_flatMap_filter nodup_firstKeys fun a ha => mem_firstKeys.mpr (List.mem_map_of_mem ha)

theorem sum_length_filter_groupsBy {p : κ → Bool} :
    (((groupsBy key xs).filter fun g => p g.1).map fun g => g.2.length).sum =
      (xs.filter fun a => p (key a)).length := by
  have hperm : ((firstKeys (xs.map key)).filter p |>.flatMap fun k =>
      (xs.filter fun a => p (key a)).filter fun a => key a = k).Perm
      (xs.filter fun a => p (key a)) := by
    refine perm_flatMap_filter (nodup_firstKeys.filter p) fun a ha => ?_
    obtain ⟨hmem, hp⟩ := List.mem_filter.mp ha
    exact List.mem_filter.mpr ⟨mem_firstKeys.mpr (List.mem_map_of_mem hmem), hp⟩
  have hgroups : ((groupsBy key xs).filter fun g => p g.1) =
      ((firstKeys (xs.map key)).filter p).map fun k => (k, xs.filter fun a => key a = k) := by
    rw [groupsBy, List.filter_map]
    rfl
  rw [← hperm.length_eq, List.length_flatMap, hgroups, List.map_map]
  refine congrArg List.sum (List.map_congr_left fun k hk => congrArg List.length ?_)
  rw [List.filter_filter]
  refine List.filter_congr fun a _ => ?_
  have hpk : p k = true := (List.mem_filter.mp hk).2
  by_cases ha : key a = k
  · simp [ha, hpk]
  · simp [ha]

theorem lookup_map_keys {γ : Type} {f : κ → γ} :
    (ks.map fun k => (k, f k)).lookup k = if k ∈ ks then some (f k) else none := by
  induction ks with
  | nil => rfl
  | cons j rest ih =>
    rw [List.map_cons, List.lookup_cons]
    by_cases hj : k = j
    · rw [hj, beq_self_eq_true, if_pos List.mem_cons_self]
    · rw [beq_false_of_ne hj, ih]
      simp only [List.mem_cons, hj, false_or]

end Groups

end Lib
