import Mathlib.Data.List.Sort

namespace Lib

variable {α κ : Type*} [LinearOrder κ] (key : α → κ)

/-- The elements in ascending key order.  Elements of one key keep their order. -/
def sortBy (l : List α) : List α := l.insertionSort (fun a b => key a ≤ key b)

/-- The first element in the order `r`, as a query with a sort and a limit of one
returns it. -/
def firstBy (r : α → α → Prop) [DecidableRel r] (l : List α) : Option α :=
  (l.insertionSort r).head?

@[simp] theorem mem_sortBy {a : α} {l : List α} : a ∈ sortBy key l ↔ a ∈ l :=
  List.mem_insertionSort _

theorem perm_sortBy (l : List α) : (sortBy key l).Perm l :=
  List.perm_insertionSort _ l

theorem sortBy_eq_self {l : List α} (h : l.Pairwise (fun a b => key a ≤ key b)) :
    sortBy key l = l :=
  List.Pairwise.insertionSort_eq h

theorem sortBy_map {f : α → α} (hf : ∀ a, key (f a) = key a) (l : List α) :
    sortBy key (l.map f) = (sortBy key l).map f := by
  refine (List.map_insertionSort (fun a b => key a ≤ key b) (fun a b => key a ≤ key b) f l ?_).symm
  intro a _ b _
  rw [hf, hf]

/-- Lists with the same keys in the same order are sorted alike, so the sorted ones
tell them apart. -/
theorem eq_of_sortBy_eq {l m : List α} (hkeys : l.map key = m.map key)
    (h : sortBy key l = sortBy key m) : l = m := by
  have hlength : l.length = m.length := by
    have hmap := congrArg List.length hkeys
    rwa [List.length_map, List.length_map] at hmap
  have hfst : (l.zip m).map Prod.fst = l := List.map_fst_zip hlength.le
  have hsnd : (l.zip m).map Prod.snd = m := List.map_snd_zip hlength.ge
  -- the two lists are sorted together, by the key of the one or of the other
  have hkey : ∀ q ∈ l.zip m, key q.1 = key q.2 := by
    have hzip : (l.zip m).map (key ∘ Prod.fst) = (l.zip m).map (key ∘ Prod.snd) := by
      rw [← List.map_map, ← List.map_map, hfst, hsnd, hkeys]
    exact List.map_inj_left.mp hzip
  have hleft : (sortBy (key ∘ Prod.fst) (l.zip m)).map Prod.fst = sortBy key l := by
    have hmap := List.map_insertionSort (fun a b : α × α => key a.1 ≤ key b.1)
      (fun a b => key a ≤ key b) Prod.fst (l.zip m) (fun _ _ _ _ => Iff.rfl)
    rw [hfst] at hmap
    exact hmap
  have hright : (sortBy (key ∘ Prod.fst) (l.zip m)).map Prod.snd = sortBy key m := by
    have hmap := List.map_insertionSort (fun a b : α × α => key a.1 ≤ key b.1)
      (fun a b => key a ≤ key b) Prod.snd (l.zip m)
      (fun a ha b hb => by rw [hkey a ha, hkey b hb])
    rw [hsnd] at hmap
    exact hmap
  have hsame : ∀ q ∈ l.zip m, q.1 = q.2 := by
    rw [← hleft, ← hright] at h
    have hsorted := List.map_inj_left.mp h
    intro q hq
    exact hsorted q ((mem_sortBy _).mpr hq)
  calc l = (l.zip m).map Prod.fst := hfst.symm
    _ = (l.zip m).map Prod.snd := List.map_congr_left hsame
    _ = m := hsnd

theorem orderedInsert_append_of_le {a : α} {xs ys : List α} (h : ∀ b ∈ ys, key a ≤ key b) :
    (xs ++ ys).orderedInsert (fun a b => key a ≤ key b) a =
      xs.orderedInsert (fun a b => key a ≤ key b) a ++ ys := by
  induction xs with
  | nil =>
    cases ys with
    | nil => rfl
    | cons b ys =>
      have hb := h b List.mem_cons_self
      simp [hb]
  | cons c xs ih =>
    by_cases hc : key a ≤ key c
    · simp [hc]
    · simp [hc, ih]

theorem orderedInsert_append_of_lt {a : α} {xs ys : List α} (h : ∀ b ∈ xs, key b < key a) :
    (xs ++ ys).orderedInsert (fun a b => key a ≤ key b) a =
      xs ++ ys.orderedInsert (fun a b => key a ≤ key b) a := by
  induction xs with
  | nil => rfl
  | cons c xs ih =>
    have hc : ¬key a ≤ key c := not_le.mpr (h c List.mem_cons_self)
    simp [hc, ih (fun b hb => h b (List.mem_cons_of_mem c hb))]

theorem sortBy_filter_or {p q : α → Bool} {l : List α}
    (h : ∀ a ∈ l, ∀ b ∈ l, p a = true → q b = true → key a < key b) :
    sortBy key (l.filter (fun a => p a || q a)) =
      sortBy key (l.filter p) ++ sortBy key (l.filter q) := by
  induction l with
  | nil => rfl
  | cons a l ih =>
    have ih' := ih (fun x hx y hy => h x (List.mem_cons_of_mem a hx) y (List.mem_cons_of_mem a hy))
    by_cases hp : p a = true
    · have hq : q a = false := by
        by_contra hq
        exact lt_irrefl _ (h a List.mem_cons_self a List.mem_cons_self hp (by simpa using hq))
      rw [List.filter_cons_of_pos (by simp [hp]), List.filter_cons_of_pos hp,
        List.filter_cons_of_neg (by simp [hq])]
      simp only [sortBy, List.insertionSort_cons] at ih' ⊢
      rw [ih']
      refine orderedInsert_append_of_le key (fun b hb => le_of_lt ?_)
      rw [List.mem_insertionSort, List.mem_filter] at hb
      exact h a List.mem_cons_self b (List.mem_cons_of_mem a hb.1) hp hb.2
    · by_cases hq : q a = true
      · rw [List.filter_cons_of_pos (by simp [hq]), List.filter_cons_of_neg hp,
          List.filter_cons_of_pos hq]
        simp only [sortBy, List.insertionSort_cons] at ih' ⊢
        rw [ih']
        refine orderedInsert_append_of_lt key (fun b hb => ?_)
        rw [List.mem_insertionSort, List.mem_filter] at hb
        exact h b (List.mem_cons_of_mem a hb.1) a List.mem_cons_self hb.2 hq
      · rw [List.filter_cons_of_neg (by simp [hp, hq]), List.filter_cons_of_neg hp,
          List.filter_cons_of_neg hq]
        exact ih'

theorem sortBy_filter_gt {l : List α} (k : κ) :
    sortBy key (l.filter fun a => k < key a) = (sortBy key l).filter fun a => k < key a := by
  have hall : l.filter (fun a => decide (key a ≤ k) || decide (k < key a)) = l := by
    rw [List.filter_eq_self]
    intro a _
    rw [Bool.or_eq_true_iff, decide_eq_true_iff, decide_eq_true_iff]
    exact le_or_gt (key a) k
  have hsplit := @sortBy_filter_or _ _ _ key (fun a => key a ≤ k) (fun a => k < key a) l
    fun a _ b _ ha hb => (of_decide_eq_true ha).trans_lt (of_decide_eq_true hb)
  have hbelow : (sortBy key (l.filter fun a => key a ≤ k)).filter (fun a => k < key a) = [] := by
    rw [List.filter_eq_nil_iff]
    intro a ha
    rw [mem_sortBy, List.mem_filter] at ha
    simpa using ha.2
  have habove : (sortBy key (l.filter fun a => k < key a)).filter (fun a => k < key a) =
      sortBy key (l.filter fun a => k < key a) := by
    rw [List.filter_eq_self]
    intro a ha
    rw [mem_sortBy, List.mem_filter] at ha
    exact ha.2
  rw [hall] at hsplit
  rw [hsplit, List.filter_append, hbelow, habove, List.nil_append]

theorem split_of_monotone {l : List α} (h : l.Pairwise (fun a b => key a ≤ key b)) (k : κ) :
    l = l.filter (fun a => key a < k) ++ l.filter (fun a => key a = k) ++
      l.filter (fun a => k < key a) := by
  induction l with
  | nil => rfl
  | cons a l ih =>
    obtain ⟨hle, hl⟩ := List.pairwise_cons.mp h
    have ih' := ih hl
    have hnil : ∀ p : α → Bool, (∀ b ∈ l, p b = false) → l.filter p = [] := by
      intro p hp
      exact List.filter_eq_nil_iff.mpr fun b hb => by simp [hp b hb]
    rcases lt_trichotomy (key a) k with hk | hk | hk
    · simp only [List.filter_cons, hk, hk.ne, not_lt_of_gt hk, decide_true, decide_false, if_true,
        Bool.false_eq_true, if_false, List.cons_append]
      rw [← ih']
    · have hlt : l.filter (fun b => key b < k) = [] :=
        hnil _ fun b hb => by simpa [← hk] using hle b hb
      rw [hlt, List.nil_append] at ih'
      simp only [List.filter_cons, hk, lt_irrefl, decide_true, decide_false, if_true,
        Bool.false_eq_true, if_false, hlt, List.nil_append, List.cons_append]
      rw [← ih']
    · have hlt : l.filter (fun b => key b < k) = [] :=
        hnil _ fun b hb => by simpa using le_of_lt (lt_of_lt_of_le hk (hle b hb))
      have heq : l.filter (fun b => key b = k) = [] :=
        hnil _ fun b hb => by simpa using (lt_of_lt_of_le hk (hle b hb)).ne'
      rw [hlt, heq, List.nil_append, List.nil_append] at ih'
      simp only [List.filter_cons, hk, hk.ne', not_lt_of_gt hk, decide_true, decide_false, if_true,
        Bool.false_eq_true, if_false, hlt, heq, List.nil_append]
      rw [← ih']

section First

variable {r : α → α → Prop} [DecidableRel r]

theorem firstBy_eq_none {l : List α} : firstBy r l = none ↔ l = [] := by
  rw [firstBy, List.head?_eq_none_iff, ← List.length_eq_zero_iff, List.length_insertionSort,
    List.length_eq_zero_iff]

theorem firstBy_spec [Std.Total r] [IsTrans α r] {l : List α} {a : α} (h : firstBy r l = some a) :
    a ∈ l ∧ ∀ b ∈ l, r a b := by
  have hs := List.pairwise_insertionSort r l
  rw [firstBy, List.head?_eq_some_iff] at h
  obtain ⟨t, ht⟩ := h
  rw [ht, List.pairwise_cons] at hs
  have hmem : ∀ b, b ∈ l ↔ b ∈ a :: t := fun b => by rw [← ht, List.mem_insertionSort]
  refine ⟨(hmem a).mpr List.mem_cons_self, fun b hb => ?_⟩
  rcases List.mem_cons.mp ((hmem b).mp hb) with rfl | hb
  · exact (Std.Total.total b b).elim id id
  · exact hs.1 b hb

end First

section Numbered

variable {num : α → Option Int}
variable {l : List α} {n : Int}

def Numbered (num : α → Option Int) (n : Int) : List α → Prop
  | [] => True
  | a :: as => num a = some n ∧ Numbered num (n + 1) as

theorem numbered_append {as bs : List α} :
    Numbered num n (as ++ bs) ↔ Numbered num n as ∧ Numbered num (n + as.length) bs := by
  induction as generalizing n with
  | nil => simp [Numbered]
  | cons a as ih =>
    have hlen : n + 1 + (as.length : Int) = n + ((a :: as).length : Nat) := by
      rw [List.length_cons]
      omega
    simp only [List.cons_append, Numbered, ih, and_assoc, hlen]

theorem Numbered.getElem (h : Numbered num n l) (i : Nat)
    (hi : i < l.length) : num l[i] = some (n + i) := by
  induction l generalizing n i with
  | nil => exact absurd hi (Nat.not_lt_zero i)
  | cons a as ih =>
    cases i with
    | zero => simpa using h.1
    | succ i =>
      have hrec := ih h.2 i (by simpa using hi)
      rw [List.getElem_cons_succ, hrec]
      congr 1
      omega

theorem Numbered.mem_iff (h : Numbered num n l) (z : Int) :
    (∃ a ∈ l, num a = some z) ↔ n ≤ z ∧ z < n + l.length := by
  induction l generalizing n with
  | nil => simp only [List.length_nil]; constructor
           · rintro ⟨a, ha, -⟩; cases ha
           · omega
  | cons a as ih =>
    have hrec := ih h.2
    rw [List.length_cons]
    constructor
    · rintro ⟨b, hb, hz⟩
      rcases List.mem_cons.mp hb with rfl | hb
      · have hzn : some z = some n := by rw [← hz, h.1]
        cases hzn
        omega
      · have := hrec.mp ⟨b, hb, hz⟩
        omega
    · intro hz
      by_cases hn : z = n
      · exact ⟨a, List.mem_cons_self, by rw [h.1, hn]⟩
      · obtain ⟨b, hb, hbz⟩ := hrec.mpr (by omega)
        exact ⟨b, List.mem_cons_of_mem a hb, hbz⟩

theorem Numbered.of_mem (h : Numbered num n l) {a : α} (ha : a ∈ l) :
    ∃ z, num a = some z ∧ n ≤ z ∧ z < n + l.length := by
  obtain ⟨i, hi, rfl⟩ := List.getElem_of_mem ha
  exact ⟨n + i, h.getElem i hi, by omega, by omega⟩

theorem Numbered.getLast (h : Numbered num n l) (hne : l ≠ []) :
    num (l.getLast hne) = some (n + l.length - 1) := by
  have hpos : 0 < l.length := List.length_pos_of_ne_nil hne
  rw [List.getLast_eq_getElem, h.getElem]
  congr 1
  omega

/-- A key occurs once. -/
theorem Numbered.eq_of_num_eq (h : Numbered num n l) {a b : α}
    (ha : a ∈ l) (hb : b ∈ l) (hab : num a = num b) : a = b := by
  obtain ⟨i, hi, rfl⟩ := List.getElem_of_mem ha
  obtain ⟨j, hj, rfl⟩ := List.getElem_of_mem hb
  rw [h.getElem, h.getElem] at hab
  have hij : n + (i : Int) = n + j := Option.some.inj hab
  have heq : i = j := by omega
  subst heq
  rfl

theorem Numbered.map {f : α → α} (h : Numbered num n l)
    (hf : ∀ a, num (f a) = num a) : Numbered num n (l.map f) := by
  induction l generalizing n with
  | nil => trivial
  | cons a as ih =>
    rw [List.map_cons]
    exact ⟨(hf a).trans h.1, ih h.2⟩

theorem Numbered.pairwise (h : Numbered num n l) :
    l.Pairwise (fun a b => ∃ y z, num a = some y ∧ num b = some z ∧ y < z) := by
  induction l generalizing n with
  | nil => exact List.Pairwise.nil
  | cons a as ih =>
    refine List.Pairwise.cons (fun b hb => ?_) (ih h.2)
    obtain ⟨z, hz, hle, -⟩ := h.2.of_mem hb
    exact ⟨n, z, h.1, hz, by omega⟩

end Numbered

end Lib
