import Mathlib.Data.List.Perm.Basic
namespace Lib

variable {ι κ β : Type}

section FindSome

variable {xs : List ι}

theorem findSome?_filterMap {g : ι → Option κ} {f : κ → Option β} :
    (xs.filterMap g).findSome? f = xs.findSome? fun x => (g x).bind f := by
  rw [← List.head?_filterMap, List.filterMap_filterMap, List.head?_filterMap]

theorem findSome?_flatMap {g : ι → List κ} {f : κ → Option β} :
    (xs.flatMap g).findSome? f = xs.findSome? fun x => (g x).findSome? f := by
  rw [← List.head?_filterMap, List.filterMap_flatMap, List.head?_flatMap]
  simp only [List.head?_filterMap]

theorem findSome?_filter {p : ι → Bool} {f : ι → Option β} :
    (xs.filter p).findSome? f = xs.findSome? fun x => if p x then f x else none := by
  rw [← List.head?_filterMap, List.filterMap_filter, List.head?_filterMap]

end FindSome

section Overwrites

variable [DecidableEq κ] (keys : ι → List κ) (value : ι → Option β) (entries : List ι)

def lastWith (k : κ) : Option ι := entries.reverse.find? fun e => decide (k ∈ keys e)

def hit (k : κ) : Option β := (lastWith keys entries k).bind value

def firstHit : Option β := entries.findSome? fun e => (keys e).findSome? (hit keys value entries)

/-- Some entries with values come before the first one that has the key. -/
structure Opening (early : List ι) (first : ι) (late : List ι) (before : List κ) (k : κ) :
    Prop where
  perm : (early ++ first :: late).Perm entries
  early : ∀ x ∈ early, (value x).isSome = true ∧ k ∉ keys x
  first : ∃ after, keys first = before ++ k :: after

/-- The entry may be the last one that has the key. -/
def MayClose (first : ι) (late : List ι) (k : κ) (e : ι) : Prop :=
  (e ∈ late ∧ k ∈ keys e) ∨ (e = first ∧ ∀ r ∈ late, k ∉ keys r)

/-- Another key may be left to an entry without a value, while the entry is the last one that has
the key. -/
def MayBeLost (first : ι) (late : List ι) (k : κ) (e : ι) (q : κ) : Prop :=
  (∃ u ∈ late, value u = none ∧ q ∈ keys u ∧ k ∉ keys u) ∨
    (q ∉ keys e ∧ ((∃ u ∈ late, value u = none ∧ q ∈ keys u) ∨
      (value first = none ∧ q ∈ keys first ∧ ∀ r ∈ late, q ∈ keys r → value r = none)))

/-- An entry with the value may be the last one that has some key, while all keys that are read
before may be left to entries without a value. -/
def Reaches (v : β) : Prop :=
  ∃ early first late before k e, Opening keys value entries early first late before k ∧
    MayClose keys first late k e ∧ value e = some v ∧
    ∀ q, (q ∈ before ∨ ∃ x ∈ early, q ∈ keys x) → MayBeLost keys value first late k e q

/-- All entries that have some key have values. -/
def Secured : Prop :=
  ∃ e ∈ entries, ∃ k ∈ keys e, ∀ u ∈ entries, k ∈ keys u → (value u).isSome = true

variable {keys value entries} {xs ys order : List ι} {e : ι} {k : κ} {v : β}

theorem lastWith_eq_some_iff : lastWith keys entries k = some e ↔
    k ∈ keys e ∧ ∃ xs ys, entries = xs ++ e :: ys ∧ ∀ y ∈ ys, k ∉ keys y := by
  rw [lastWith, List.find?_eq_some_iff_append, decide_eq_true_iff]
  refine and_congr_right fun _ => ?_
  constructor
  · rintro ⟨ys, xs, heq, hnone⟩
    refine ⟨xs.reverse, ys.reverse, ?_, fun y hy => ?_⟩
    · rw [← List.reverse_reverse entries, heq]
      simp
    · simpa using hnone y (List.mem_reverse.mp hy)
  · rintro ⟨xs, ys, rfl, hnone⟩
    refine ⟨ys.reverse, xs.reverse, by simp, fun y hy => ?_⟩
    simpa using hnone y (List.mem_reverse.mp hy)

theorem lastWith_eq_none_iff : lastWith keys entries k = none ↔ ∀ e ∈ entries, k ∉ keys e := by
  simp [lastWith]

theorem mem_of_lastWith (h : lastWith keys entries k = some e) : e ∈ entries ∧ k ∈ keys e := by
  obtain ⟨hk, xs, ys, rfl, -⟩ := lastWith_eq_some_iff.mp h
  exact ⟨List.mem_append_right _ List.mem_cons_self, hk⟩

theorem exists_lastWith (he : e ∈ entries) (hk : k ∈ keys e) :
    ∃ l, lastWith keys entries k = some l := by
  refine Option.ne_none_iff_exists'.mp fun hnone => ?_
  exact lastWith_eq_none_iff.mp hnone e he hk

/-- A key that some later entry has stands for a later one. -/
theorem lastWith_append (h : ∃ y ∈ ys, k ∈ keys y) :
    lastWith keys (xs ++ ys) k = lastWith keys ys k := by
  obtain ⟨y, hy, hk⟩ := h
  obtain ⟨l, hl⟩ := exists_lastWith hy hk
  unfold lastWith at hl ⊢
  rw [List.reverse_append, List.find?_append, hl]
  rfl

theorem lastWith_unique {q : κ} {u : ι} (hk : lastWith keys entries k = some e)
    (hq : lastWith keys entries q = some u) (hku : k ∈ keys u) (hqe : q ∈ keys e) : e = u := by
  unfold lastWith at hk hq
  generalize entries.reverse = later at hk hq
  induction later with
  | nil => cases hk
  | cons a rest ih =>
    rw [List.find?_cons] at hk hq
    by_cases hka : k ∈ keys a
    · rw [decide_eq_true hka] at hk
      obtain rfl := Option.some.inj hk
      rw [decide_eq_true hqe] at hq
      exact Option.some.inj hq
    · rw [decide_eq_false hka] at hk
      by_cases hqa : q ∈ keys a
      · rw [decide_eq_true hqa] at hq
        exact absurd (Option.some.inj hq ▸ hku) hka
      · rw [decide_eq_false hqa] at hq
        exact ih hk hq

theorem lost_of_later (h : ∃ y ∈ ys, k ∈ keys y) (hnone : ∀ y ∈ ys, k ∈ keys y → value y = none) :
    hit keys value (xs ++ ys) k = none := by
  obtain ⟨y, hy, hk⟩ := h
  obtain ⟨l, hl⟩ := exists_lastWith hy hk
  obtain ⟨hmem, hkey⟩ := mem_of_lastWith hl
  rw [hit, lastWith_append ⟨y, hy, hk⟩, hl, Option.bind_some, hnone l hmem hkey]

theorem exists_of_lost (he : e ∈ entries) (hk : k ∈ keys e)
    (hlost : hit keys value entries k = none) :
    ∃ u, lastWith keys entries k = some u ∧ value u = none := by
  obtain ⟨u, hu⟩ := exists_lastWith he hk
  rw [hit, hu, Option.bind_some] at hlost
  exact ⟨u, hu, hlost⟩

theorem firstHit_eq_none_iff : firstHit keys value entries = none ↔
    ∀ e ∈ entries, ∀ k ∈ keys e, hit keys value entries k = none := by
  simp only [firstHit, List.findSome?_eq_none_iff]

theorem firstHit_eq_some_iff : firstHit keys value entries = some v ↔
    ∃ xs first ys before k after, entries = xs ++ first :: ys ∧
      keys first = before ++ k :: after ∧ hit keys value entries k = some v ∧
      ∀ q, (q ∈ before ∨ ∃ x ∈ xs, q ∈ keys x) → hit keys value entries q = none := by
  rw [firstHit, List.findSome?_eq_some_iff]
  constructor
  · rintro ⟨xs, first, ys, heq, hfirst, hnone⟩
    obtain ⟨before, k, after, hkeys, hhit, hbefore⟩ := List.findSome?_eq_some_iff.mp hfirst
    refine ⟨xs, first, ys, before, k, after, heq, hkeys, hhit, ?_⟩
    rintro q (hq | ⟨x, hx, hq⟩)
    · exact hbefore q hq
    · exact List.findSome?_eq_none_iff.mp (hnone x hx) q hq
  · rintro ⟨xs, first, ys, before, k, after, heq, hkeys, hhit, hlost⟩
    refine ⟨xs, first, ys, heq, List.findSome?_eq_some_iff.mpr
      ⟨before, k, after, hkeys, hhit, fun q hq => hlost q (.inl hq)⟩, fun x hx => ?_⟩
    exact List.findSome?_eq_none_iff.mpr fun q hq => hlost q (.inr ⟨x, hx, hq⟩)

theorem perm_values (value : ι → Option β) (xs : List ι) : (xs.filter (fun x => (value x).isSome) ++
    xs.filter fun x => (value x).isNone).Perm xs := by
  have h := List.filter_append_perm (fun x => (value x).isSome) xs
  simpa using h

theorem eq_none_of_mem_filter (h : e ∈ xs.filter fun x => (value x).isNone) : value e = none :=
  Option.isNone_iff_eq_none.mp (List.mem_filter.mp h).2

theorem mem_filter_of_none (he : e ∈ xs) (hnone : value e = none) :
    e ∈ xs.filter fun x => (value x).isNone :=
  List.mem_filter.mpr ⟨he, by rw [hnone]; rfl⟩

theorem firstHit_ne_none_iff :
    (∀ order : List ι, order.Perm entries → firstHit keys value order ≠ none) ↔
      Secured keys value entries := by
  constructor
  · intro h
    by_contra hnot
    refine h _ (perm_values value entries) (firstHit_eq_none_iff.mpr fun e he k hk => ?_)
    have hopen : ∃ u ∈ entries, k ∈ keys u ∧ value u = none := by
      by_contra hclosed
      refine hnot ⟨e, (perm_values value entries).mem_iff.mp he, k, hk, fun u hu hku => ?_⟩
      exact Option.isSome_iff_ne_none.mpr fun hnone => hclosed ⟨u, hu, hku, hnone⟩
    obtain ⟨u, hu, hku, hnone⟩ := hopen
    exact lost_of_later ⟨u, mem_filter_of_none hu hnone, hku⟩ fun y hy _ => eq_none_of_mem_filter hy
  · rintro ⟨e, he, k, hk, hall⟩ order hperm hnone
    have hmem := hperm.mem_iff.mpr he
    obtain ⟨u, hu, hvalue⟩ := exists_of_lost hmem hk (firstHit_eq_none_iff.mp hnone e hmem k hk)
    obtain ⟨hlast, hkey⟩ := mem_of_lastWith hu
    have hsome := hall u (hperm.mem_iff.mp hlast) hkey
    rw [hvalue] at hsome
    cases hsome

section Reached

variable {first : ι} {early late : List ι} {before : List κ} {q : κ} {u : ι}

theorem lastWith_cons_later (h : ∃ y ∈ ys, k ∈ keys y) :
    lastWith keys (xs ++ first :: ys) k = lastWith keys ys k := by
  rw [← List.singleton_append, ← List.append_assoc, lastWith_append h]

theorem mayClose_of_lastWith (hfirst : k ∈ keys first)
    (hlast : lastWith keys (xs ++ first :: ys) k = some e) (hlate : ∀ r ∈ late, r ∈ ys ∨ k ∉ keys r)
    (hsub : ys ⊆ late) : MayClose keys first late k e := by
  by_cases hlater : ∃ y ∈ ys, k ∈ keys y
  · rw [lastWith_cons_later hlater] at hlast
    obtain ⟨hmem, hke⟩ := mem_of_lastWith hlast
    exact .inl ⟨hsub hmem, hke⟩
  · have hnone : ∀ y ∈ ys, k ∉ keys y := fun y hy hky => hlater ⟨y, hy, hky⟩
    rw [lastWith_append ⟨first, List.mem_cons_self, hfirst⟩] at hlast
    obtain ⟨hmem, hke⟩ := mem_of_lastWith hlast
    rcases List.mem_cons.mp hmem with heq | hys
    · exact .inr ⟨heq, fun r hr => (hlate r hr).elim (hnone r) id⟩
    · exact absurd hke (hnone e hys)

theorem mayBeLost_of_lost (hfirst : k ∈ keys first) (hxs : ∀ x ∈ xs, k ∉ keys x)
    (hlast : lastWith keys (xs ++ first :: ys) k = some e) (hvalue : value e = some v)
    (hu : lastWith keys (xs ++ first :: ys) q = some u) (hnone : value u = none) :
    MayBeLost keys value first ((xs.filter fun x => (value x).isNone) ++ ys) k e q := by
  obtain ⟨hmem, hqu⟩ := mem_of_lastWith hu
  have hqe : k ∈ keys u → q ∉ keys e := fun hku hqe => by
    rw [lastWith_unique hlast hu hku hqe, hnone] at hvalue
    cases hvalue
  by_cases hlater : ∃ y ∈ ys, q ∈ keys y
  · rw [lastWith_cons_later hlater] at hu
    have hy : u ∈ ys := (mem_of_lastWith hu).1
    by_cases hku : k ∈ keys u
    · exact .inr ⟨hqe hku, .inl ⟨u, List.mem_append_right _ hy, hnone, hqu⟩⟩
    · exact .inl ⟨u, List.mem_append_right _ hy, hnone, hqu, hku⟩
  · rcases List.mem_append.mp hmem with hx | hrest
    · exact .inl ⟨u, List.mem_append_left _ (mem_filter_of_none hx hnone), hnone, hqu, hxs u hx⟩
    · rcases List.mem_cons.mp hrest with rfl | hy
      · refine .inr ⟨hqe hfirst, .inr ⟨hnone, hqu, fun r hr hqr => ?_⟩⟩
        rcases List.mem_append.mp hr with hx | hy
        · exact eq_none_of_mem_filter hx
        · exact absurd ⟨r, hy, hqr⟩ hlater
      · exact absurd ⟨u, hy, hqu⟩ hlater

theorem reaches_of_firstHit (hperm : order.Perm entries)
    (h : firstHit keys value order = some v) : Reaches keys value entries v := by
  obtain ⟨xs, first, ys, before, k, after, rfl, hkeys, hhit, hlost⟩ := firstHit_eq_some_iff.mp h
  obtain ⟨e, hlast, hvalue⟩ := Option.bind_eq_some_iff.mp hhit
  have hfirst : k ∈ keys first := hkeys ▸ List.mem_append_right _ List.mem_cons_self
  have hxs : ∀ x ∈ xs, k ∉ keys x := fun x hx hkx => by
    rw [hlost k (.inr ⟨x, hx, hkx⟩)] at hhit
    cases hhit
  refine ⟨xs.filter fun x => (value x).isSome, first, (xs.filter fun x => (value x).isNone) ++ ys,
    before, k, e, ⟨?_, fun x hx => ?_, after, hkeys⟩, ?_, hvalue, fun q hq => ?_⟩
  · refine List.Perm.trans ?_ (((perm_values value xs).append_right (first :: ys)).trans hperm)
    rw [List.append_assoc]
    exact List.perm_middle.symm.append_left _
  · obtain ⟨hx, hsome⟩ := List.mem_filter.mp hx
    exact ⟨hsome, hxs x hx⟩
  · refine mayClose_of_lastWith hfirst hlast (fun r hr => ?_) (List.subset_append_right ..)
    rcases List.mem_append.mp hr with hx | hy
    · exact .inr (hxs r (List.mem_filter.mp hx).1)
    · exact .inl hy
  · have hread : q ∈ before ∨ ∃ x ∈ xs, q ∈ keys x :=
      hq.imp_right fun ⟨x, hx, hqx⟩ => ⟨x, (List.mem_filter.mp hx).1, hqx⟩
    obtain ⟨c, hc, hqc⟩ : ∃ c ∈ xs ++ first :: ys, q ∈ keys c := by
      rcases hread with hbefore | ⟨x, hx, hqx⟩
      · exact ⟨first, List.mem_append_right _ List.mem_cons_self,
          hkeys ▸ List.mem_append_left _ hbefore⟩
      · exact ⟨x, List.mem_append_left _ hx, hqx⟩
    obtain ⟨u, hu, hnone⟩ := exists_of_lost hc hqc (hlost q hread)
    exact mayBeLost_of_lost hfirst hxs hlast hvalue hu hnone

theorem firstHit_of_opening (h : Opening keys value entries early first late before k)
    (hrest : xs.Perm late) (hlast : lastWith keys (early ++ first :: xs) k = some e)
    (hvalue : value e = some v)
    (hlost : ∀ q, (q ∈ before ∨ ∃ x ∈ early, q ∈ keys x) →
      hit keys value (early ++ first :: xs) q = none) :
    ∃ order : List ι, order.Perm entries ∧ firstHit keys value order = some v := by
  obtain ⟨after, hkeys⟩ := h.first
  refine ⟨early ++ first :: xs, ((hrest.cons first).append_left early).trans h.perm,
    firstHit_eq_some_iff.mpr ⟨early, first, xs, before, k, after, rfl, hkeys, ?_, hlost⟩⟩
  rw [hit, hlast, Option.bind_some, hvalue]

/-- An entry with a key behind all others that have it, and in front of the entries without values
that do not have it. -/
def behindAll (keys : ι → List κ) (value : ι → Option β) (k : κ) (e : ι) (rest : List ι) : List ι :=
  rest.filter (fun x => (value x).isSome) ++
    (rest.filter fun x => (value x).isNone).filter (fun x => decide (k ∈ keys x)) ++
    e :: (rest.filter fun x => (value x).isNone).filter fun x => !decide (k ∈ keys x)

theorem perm_behindAll {rest : List ι} : (behindAll keys value k e rest).Perm (e :: rest) := by
  refine List.Perm.trans List.perm_middle (List.Perm.cons e ?_)
  refine List.Perm.trans ?_ (perm_values value rest)
  rw [List.append_assoc]
  exact (List.filter_append_perm _ _).append_left _

theorem lastWith_behindAll {rest : List ι} (hke : k ∈ keys e) :
    lastWith keys (xs ++ behindAll keys value k e rest) k = some e := by
  unfold behindAll
  refine lastWith_eq_some_iff.mpr ⟨hke, _, _, (List.append_assoc ..).symm, fun y hy => ?_⟩
  simpa using (List.mem_filter.mp hy).2

theorem lost_behindAll {rest : List ι} (hlate : late.Perm (e :: rest)) (hke : k ∈ keys e)
    (hvalue : value e = some v) (h : MayBeLost keys value first late k e q) :
    hit keys value (early ++ first :: behindAll keys value k e rest) q = none := by
  have hbare : ∀ u ∈ late, value u = none → u ∈ rest.filter fun x => (value x).isNone := by
    intro u hu hnone
    rcases List.mem_cons.mp (hlate.mem_iff.mp hu) with rfl | hrest
    · rw [hnone] at hvalue
      cases hvalue
    · exact mem_filter_of_none hrest hnone
  rcases h with ⟨u, hu, hnone, hqu, hku⟩ | ⟨hqe, ⟨u, hu, hnone, hqu⟩ | ⟨hnone, hqf, hall⟩⟩
  · -- the entries behind all that have the key
    have hlacking : u ∈ (rest.filter fun x => (value x).isNone).filter fun x =>
        !decide (k ∈ keys x) := List.mem_filter.mpr ⟨hbare u hu hnone, by simpa using hku⟩
    unfold behindAll
    rw [← List.cons_append, ← List.append_assoc, List.append_cons]
    exact lost_of_later ⟨u, hlacking, hqu⟩ fun y hy _ =>
      eq_none_of_mem_filter (List.mem_filter.mp hy).1
  · -- the entries behind those with values, of which only the last one with the key has one
    unfold behindAll
    rw [List.append_assoc, ← List.cons_append, ← List.append_assoc]
    refine lost_of_later ⟨u, ?_, hqu⟩ fun y hy hqy => ?_
    · by_cases hku : k ∈ keys u
      · exact List.mem_append_left _
          (List.mem_filter.mpr ⟨hbare u hu hnone, decide_eq_true hku⟩)
      · exact List.mem_append_right _ (List.mem_cons_of_mem _
          (List.mem_filter.mpr ⟨hbare u hu hnone, by simpa using hku⟩))
    · rcases List.mem_append.mp hy with hhaving | hlast
      · exact eq_none_of_mem_filter (List.mem_filter.mp hhaving).1
      · rcases List.mem_cons.mp hlast with rfl | hlacking
        · exact absurd hqy hqe
        · exact eq_none_of_mem_filter (List.mem_filter.mp hlacking).1
  · -- all but the early ones
    refine lost_of_later ⟨first, List.mem_cons_self, hqf⟩ fun y hy hqy => ?_
    rcases List.mem_cons.mp hy with rfl | hrest
    · exact hnone
    · exact hall y (hlate.mem_iff.mpr (perm_behindAll.mem_iff.mp hrest)) hqy

theorem firstHit_of_late (h : Opening keys value entries early first late before k)
    (he : e ∈ late) (hke : k ∈ keys e) (hvalue : value e = some v)
    (hlost : ∀ q, (q ∈ before ∨ ∃ x ∈ early, q ∈ keys x) →
      MayBeLost keys value first late k e q) :
    ∃ order : List ι, order.Perm entries ∧ firstHit keys value order = some v := by
  obtain ⟨s, t, rfl⟩ := List.append_of_mem he
  have hlate : (s ++ e :: t).Perm (e :: (s ++ t)) := List.perm_middle
  have hlast : lastWith keys (early ++ first :: behindAll keys value k e (s ++ t)) k = some e := by
    rw [List.append_cons]
    exact lastWith_behindAll hke
  exact firstHit_of_opening h (perm_behindAll.trans hlate.symm) hlast hvalue fun q hq =>
    lost_behindAll hlate hke hvalue (hlost q hq)

theorem firstHit_of_alone (h : Opening keys value entries early first late before k)
    (halone : ∀ r ∈ late, k ∉ keys r) (hvalue : value first = some v)
    (hlost : ∀ q, (q ∈ before ∨ ∃ x ∈ early, q ∈ keys x) →
      MayBeLost keys value first late k first q) :
    ∃ order : List ι, order.Perm entries ∧ firstHit keys value order = some v := by
  obtain ⟨after, hkeys⟩ := h.first
  have hkf : k ∈ keys first := hkeys ▸ List.mem_append_right _ List.mem_cons_self
  have hperm := perm_values value late
  refine firstHit_of_opening h hperm (lastWith_eq_some_iff.mpr ⟨hkf, early, _, rfl, fun y hy =>
    halone y (hperm.mem_iff.mp hy)⟩) hvalue fun q hq => ?_
  rw [← List.cons_append, ← List.append_assoc]
  have hopen : ∃ u ∈ late, value u = none ∧ q ∈ keys u := by
    rcases hlost q hq with ⟨u, hu, hnone, hqu, -⟩ | ⟨-, ⟨u, hu, hnone, hqu⟩ | ⟨hnone, -⟩⟩
    · exact ⟨u, hu, hnone, hqu⟩
    · exact ⟨u, hu, hnone, hqu⟩
    · rw [hnone] at hvalue
      cases hvalue
  obtain ⟨u, hu, hnone, hqu⟩ := hopen
  exact lost_of_later ⟨u, mem_filter_of_none hu hnone, hqu⟩ fun y hy _ => eq_none_of_mem_filter hy

theorem reaches_iff : Reaches keys value entries v ↔
    ∃ order : List ι, order.Perm entries ∧ firstHit keys value order = some v := by
  constructor
  · rintro ⟨early, first, late, before, k, e, hopening, ⟨he, hke⟩ | ⟨rfl, halone⟩, hvalue, hlost⟩
    · exact firstHit_of_late hopening he hke hvalue hlost
    · exact firstHit_of_alone hopening halone hvalue hlost
  · rintro ⟨order, hperm, h⟩
    exact reaches_of_firstHit hperm h

end Reached

theorem every_order_iff {right : β → Prop} :
    (∀ order : List ι, order.Perm entries →
      ((∃ v, firstHit keys value order = some v) ↔ ∃ v, right v) ∧
        (∀ v, firstHit keys value order = some v → right v) ∧
        firstHit keys value order = firstHit keys value entries) ↔
      (∀ v w, Reaches keys value entries v → Reaches keys value entries w → v = w) ∧
        (∀ v, Reaches keys value entries v → right v) ∧
        ((∃ v, right v) → Secured keys value entries) := by
  constructor
  · intro h
    refine ⟨fun v w hv hw => ?_, fun v hv => ?_, fun hright => ?_⟩
    · obtain ⟨order, hperm, hfirst⟩ := reaches_iff.mp hv
      obtain ⟨order', hperm', hfirst'⟩ := reaches_iff.mp hw
      rw [(h order hperm).2.2] at hfirst
      rw [(h order' hperm').2.2, hfirst] at hfirst'
      exact Option.some.inj hfirst'
    · obtain ⟨order, hperm, hfirst⟩ := reaches_iff.mp hv
      exact (h order hperm).2.1 v hfirst
    · refine firstHit_ne_none_iff.mp fun order hperm => ?_
      exact Option.ne_none_iff_exists'.mpr ((h order hperm).1.mpr hright)
  · rintro ⟨hone, hright, hsecured⟩ order hperm
    have hreached : ∀ {order' : List ι} {v : β}, order'.Perm entries →
        firstHit keys value order' = some v → Reaches keys value entries v :=
      fun hperm' hfirst => reaches_of_firstHit hperm' hfirst
    have hsome : (∃ v, right v) → ∀ order' : List ι, order'.Perm entries →
        ∃ v, firstHit keys value order' = some v := fun hany order' hperm' =>
      Option.ne_none_iff_exists'.mp (firstHit_ne_none_iff.mpr (hsecured hany) order' hperm')
    refine ⟨⟨fun ⟨v, hv⟩ => ⟨v, hright v (hreached hperm hv)⟩, fun hany => hsome hany order hperm⟩,
      fun v hv => hright v (hreached hperm hv), ?_⟩
    by_cases hany : ∃ v, right v
    · obtain ⟨v, hv⟩ := hsome hany order hperm
      obtain ⟨w, hw⟩ := hsome hany entries (List.Perm.refl _)
      rw [hv, hw, hone v w (hreached hperm hv) (hreached (List.Perm.refl _) hw)]
    · have hnone : ∀ order' : List ι, order'.Perm entries →
          firstHit keys value order' = none := by
        intro order' hperm'
        cases hfirst : firstHit keys value order' with
        | none => rfl
        | some v => exact absurd ⟨v, hright v (hreached hperm' hfirst)⟩ hany
      rw [hnone order hperm, hnone entries (List.Perm.refl _)]

end Overwrites

end Lib
