import Mathlib.Data.List.Nodup

namespace Lib

variable {δ κ : Type} {key : δ → κ}

/-- Documents with distinct keys, in the order they were added. -/
@[ext]
structure Collection (key : δ → κ) where
  docs : List δ
  distinct : (docs.map key).Nodup

def putDoc [DecidableEq κ] (key : δ → κ) (d : δ) : List δ → List δ
  | [] => [d]
  | e :: rest => if key e = key d then d :: rest else e :: putDoc key d rest

section PutDoc

variable [DecidableEq κ] {d e : δ} {docs : List δ}

theorem mem_keys_putDoc {k : κ} :
    k ∈ (putDoc key d docs).map key ↔ k = key d ∨ k ∈ docs.map key := by
  induction docs with
  | nil => simp [putDoc]
  | cons f rest ih =>
    rw [putDoc]
    by_cases hf : key f = key d
    · rw [if_pos hf, List.map_cons, List.map_cons, List.mem_cons, List.mem_cons, hf]
      exact ⟨fun h => h.imp_right Or.inr, fun h => h.elim Or.inl id⟩
    · rw [if_neg hf, List.map_cons, List.map_cons, List.mem_cons, List.mem_cons, ih]
      exact or_left_comm

theorem nodup_keys_putDoc (h : (docs.map key).Nodup) : ((putDoc key d docs).map key).Nodup := by
  induction docs with
  | nil => exact List.nodup_singleton (key d)
  | cons f rest ih =>
    rw [List.map_cons, List.nodup_cons] at h
    rw [putDoc]
    by_cases hf : key f = key d
    · rw [if_pos hf, List.map_cons, ← hf]
      exact List.nodup_cons.mpr h
    · rw [if_neg hf, List.map_cons, List.nodup_cons, mem_keys_putDoc]
      exact ⟨fun hmem => hmem.elim hf h.1, ih h.2⟩

theorem mem_putDoc (h : (docs.map key).Nodup) :
    e ∈ putDoc key d docs ↔ e = d ∨ (e ∈ docs ∧ key e ≠ key d) := by
  induction docs with
  | nil => simp [putDoc]
  | cons f rest ih =>
    rw [List.map_cons, List.nodup_cons] at h
    rw [putDoc]
    by_cases hf : key f = key d
    · have hrest : e ∈ rest → key e ≠ key d := by
        intro hmem heq
        exact h.1 (List.mem_map.mpr ⟨e, hmem, heq.trans hf.symm⟩)
      rw [if_pos hf, List.mem_cons, List.mem_cons]
      constructor
      · exact fun hmem => hmem.imp_right fun hin => ⟨Or.inr hin, hrest hin⟩
      · rintro (heq | ⟨heq | hin, hne⟩)
        · exact Or.inl heq
        · rw [heq] at hne
          exact absurd hf hne
        · exact Or.inr hin
    · rw [if_neg hf, List.mem_cons, List.mem_cons, ih h.2]
      constructor
      · rintro (heq | heq | hin)
        · exact Or.inr ⟨Or.inl heq, heq ▸ hf⟩
        · exact Or.inl heq
        · exact Or.inr ⟨Or.inr hin.1, hin.2⟩
      · rintro (heq | ⟨heq | hin, hne⟩)
        · exact Or.inr (Or.inl heq)
        · exact Or.inl heq
        · exact Or.inr (Or.inr ⟨hin, hne⟩)

end PutDoc

namespace Collection

instance : Membership δ (Collection key) := ⟨fun c d => d ∈ c.docs⟩

variable {c : Collection key} {d e : δ}

theorem mem_def : d ∈ c ↔ d ∈ c.docs := Iff.rfl

def empty : Collection key := ⟨[], List.nodup_nil⟩

@[simp] theorem not_mem_empty : ¬d ∈ (empty : Collection key) := List.not_mem_nil

theorem eq_of_key (hd : d ∈ c) (he : e ∈ c) (h : key d = key e) : d = e :=
  List.inj_on_of_nodup_map c.distinct hd he h

section Replace

variable [DecidableEq κ]
variable {ds : List δ}

/-- `replace_one({"_id": …}, d, upsert=True)`. -/
def replaceOne (c : Collection key) (d : δ) : Collection key :=
  ⟨putDoc key d c.docs, nodup_keys_putDoc c.distinct⟩

def bulkReplace (c : Collection key) (ds : List δ) : Collection key := ds.foldl replaceOne c

@[simp] theorem mem_replaceOne : e ∈ c.replaceOne d ↔ e = d ∨ (e ∈ c ∧ key e ≠ key d) :=
  mem_putDoc c.distinct

@[simp] theorem bulkReplace_nil : c.bulkReplace [] = c := rfl

@[simp] theorem bulkReplace_cons (ds : List δ) :
    c.bulkReplace (d :: ds) = (c.replaceOne d).bulkReplace ds := rfl

theorem bulkReplace_append (ds es : List δ) :
    c.bulkReplace (ds ++ es) = (c.bulkReplace ds).bulkReplace es :=
  List.foldl_append ..

theorem mem_bulkReplace (hds : (ds.map key).Nodup) :
    e ∈ c.bulkReplace ds ↔ e ∈ ds ∨ (e ∈ c ∧ key e ∉ ds.map key) := by
  induction ds generalizing c with
  | nil => simp
  | cons d ds ih =>
    rw [List.map_cons, List.nodup_cons] at hds
    have hd : e = d → key e ∉ ds.map key := by
      intro heq
      rw [heq]
      exact hds.1
    rw [bulkReplace_cons, ih hds.2, mem_replaceOne, List.mem_cons, List.map_cons, List.mem_cons,
      not_or]
    constructor
    · rintro (hin | ⟨heq | ⟨hin, hne⟩, hnot⟩)
      · exact Or.inl (Or.inr hin)
      · exact Or.inl (Or.inl heq)
      · exact Or.inr ⟨hin, hne, hnot⟩
    · rintro ((heq | hin) | ⟨hin, hne, hnot⟩)
      · exact Or.inr ⟨Or.inl heq, hd heq⟩
      · exact Or.inl hin
      · exact Or.inr ⟨Or.inr ⟨hin, hne⟩, hnot⟩

theorem mem_or_mem_of_bulkReplace (h : e ∈ c.bulkReplace ds) : e ∈ ds ∨ e ∈ c := by
  induction ds generalizing c with
  | nil => exact Or.inr h
  | cons d ds ih =>
    rcases ih h with hin | hin
    · exact Or.inl (List.mem_cons_of_mem d hin)
    · rcases mem_replaceOne.mp hin with heq | hold
      · rw [heq]
        exact Or.inl List.mem_cons_self
      · exact Or.inr hold.1

theorem mem_bulkReplace_of_other (h : e ∈ c) (hkey : key e ∉ ds.map key) :
    e ∈ c.bulkReplace ds := by
  induction ds generalizing c with
  | nil => exact h
  | cons d ds ih =>
    rw [List.map_cons, List.mem_cons, not_or] at hkey
    exact ih (mem_replaceOne.mpr (Or.inr ⟨h, hkey.1⟩)) hkey.2

theorem mem_bulkReplace_of_unique (hds : ∀ e ∈ ds, key e = key d → e = d)
    (h : d ∈ ds ∨ d ∈ c) : d ∈ c.bulkReplace ds := by
  induction ds generalizing c with
  | nil => exact h.resolve_left List.not_mem_nil
  | cons e ds ih =>
    refine ih (fun f hf => hds f (List.mem_cons_of_mem e hf)) ?_
    rcases h with hin | hold
    · rcases List.mem_cons.mp hin with heq | hin'
      · exact Or.inr (mem_replaceOne.mpr (Or.inl heq))
      · exact Or.inl hin'
    · by_cases hkey : key d = key e
      · exact Or.inr (mem_replaceOne.mpr (Or.inl (hds e List.mem_cons_self hkey.symm).symm))
      · exact Or.inr (mem_replaceOne.mpr (Or.inr ⟨hold, hkey⟩))

theorem exists_mem_bulkReplace (h : d ∈ ds) :
    ∃ e ∈ ds, key e = key d ∧ e ∈ c.bulkReplace ds := by
  induction ds generalizing c d with
  | nil => exact absurd h List.not_mem_nil
  | cons f ds ih =>
    by_cases hlater : key d ∈ ds.map key
    · obtain ⟨g, hg, hkey⟩ := List.mem_map.mp hlater
      obtain ⟨e, he, heq, hin⟩ := ih (c := c.replaceOne f) hg
      exact ⟨e, List.mem_cons_of_mem f he, heq.trans hkey, hin⟩
    · have hfirst : d = f := by
        rcases List.mem_cons.mp h with heq | hrest
        · exact heq
        · exact absurd (List.mem_map_of_mem hrest) hlater
      have hwritten : d ∈ c.replaceOne f := mem_replaceOne.mpr (Or.inl hfirst)
      have hstays : d ∈ (c.replaceOne f).bulkReplace ds := mem_bulkReplace_of_other hwritten hlater
      exact ⟨d, h, rfl, hstays⟩

end Replace

section Insert

variable [DecidableEq κ]

/-- `insert_one`, which is refused where the key is taken. -/
def insertOne (c : Collection key) (d : δ) : Option (Collection key) :=
  if h : key d ∈ c.docs.map key then none
  else
    some {
      docs := c.docs ++ [d]
      distinct := by
        rw [List.map_append]
        exact c.distinct.append (List.nodup_singleton _) (List.disjoint_singleton.mpr h) }

theorem mem_insertOne {c' : Collection key} (h : c.insertOne d = some c') :
    e ∈ c' ↔ e ∈ c ∨ e = d := by
  unfold insertOne at h
  split at h
  · cases h
  · rw [← Option.some.inj h]
    show e ∈ c.docs ++ [d] ↔ _
    rw [List.mem_append, List.mem_singleton]
    rfl

end Insert

def deleteMany (c : Collection key) (p : δ → Bool) : Collection key :=
  ⟨c.docs.filter fun d => !p d, c.distinct.sublist (List.filter_sublist.map key)⟩

@[simp] theorem mem_deleteMany {p : δ → Bool} : d ∈ c.deleteMany p ↔ d ∈ c ∧ p d = false := by
  show d ∈ c.docs.filter _ ↔ _
  rw [List.mem_filter, Bool.not_eq_true']
  rfl

theorem deleteMany_eq_self {p : δ → Bool} (h : ∀ d ∈ c, p d = false) : c.deleteMany p = c := by
  apply Collection.ext
  show c.docs.filter _ = c.docs
  rw [List.filter_eq_self]
  intro d hd
  rw [h d hd]
  rfl

def updateFirst (p : δ → Bool) (f : δ → δ) : List δ → List δ
  | [] => []
  | d :: rest => if p d then f d :: rest else d :: updateFirst p f rest

theorem keys_updateFirst {p : δ → Bool} {f : δ → δ} (hf : ∀ d, p d = true → key (f d) = key d)
    (docs : List δ) : (updateFirst p f docs).map key = docs.map key := by
  induction docs with
  | nil => rfl
  | cons d rest ih =>
    rw [updateFirst]
    by_cases hp : p d = true
    · rw [if_pos hp, List.map_cons, List.map_cons, hf d hp]
    · rw [if_neg hp, List.map_cons, List.map_cons, ih]

theorem mem_updateFirst_of_mem {p : δ → Bool} {f : δ → δ} {docs : List δ} (h : d ∈ docs) :
    d ∈ updateFirst p f docs ∨ p d = true ∧ f d ∈ updateFirst p f docs := by
  induction docs with
  | nil => exact absurd h List.not_mem_nil
  | cons e rest ih =>
    rw [updateFirst]
    by_cases hp : p e = true
    · rw [if_pos hp]
      rcases List.mem_cons.mp h with rfl | hrest
      · exact Or.inr ⟨hp, List.mem_cons_self⟩
      · exact Or.inl (List.mem_cons_of_mem _ hrest)
    · rw [if_neg hp]
      rcases List.mem_cons.mp h with rfl | hrest
      · exact Or.inl List.mem_cons_self
      · exact (ih hrest).imp (List.mem_cons_of_mem e) fun hin =>
          ⟨hin.1, List.mem_cons_of_mem e hin.2⟩

theorem updateFirst_eq_map {p : δ → Bool} {f : δ → δ} {docs : List δ}
    (h : docs.Pairwise fun d e => ¬(p d = true ∧ p e = true)) :
    updateFirst p f docs = docs.map fun d => if p d then f d else d := by
  induction docs with
  | nil => rfl
  | cons e rest ih =>
    rw [List.pairwise_cons] at h
    rw [updateFirst, List.map_cons]
    by_cases hp : p e = true
    · have hrest : (rest.map fun d => if p d then f d else d) = rest := by
        refine (List.map_congr_left fun d hd => ?_).trans (List.map_id rest)
        rw [if_neg fun hpd => h.1 d hd ⟨hp, hpd⟩]
        rfl
      rw [if_pos hp, if_pos hp, hrest]
    · rw [if_neg hp, if_neg hp, ih h.2]

/-- `update_one` with an update that leaves the key. -/
def updateOne (c : Collection key) (p : δ → Bool) (f : δ → δ) (hf : ∀ d, key (f d) = key d) :
    Collection key :=
  ⟨updateFirst p f c.docs, by
    rw [keys_updateFirst fun d _ => hf d]
    exact c.distinct⟩

section UpdateOne

variable {p : δ → Bool} {f : δ → δ} {hf : ∀ d, key (f d) = key d}

theorem mem_updateOne_of_mem (h : d ∈ c) :
    d ∈ c.updateOne p f hf ∨ p d = true ∧ f d ∈ c.updateOne p f hf :=
  mem_updateFirst_of_mem h

/-- A document that is not of the kind stays. -/
theorem mem_updateOne_of_not (h : d ∈ c) (hp : p d = false) : d ∈ c.updateOne p f hf := by
  rcases mem_updateOne_of_mem h with hin | hin
  · exact hin
  · rw [hin.1] at hp
    cases hp

theorem mem_updateOne_iff (h : ∀ d ∈ c, ∀ e ∈ c, p d = true → p e = true → d = e) :
    e ∈ c.updateOne p f hf ↔ ∃ d ∈ c, (if p d then f d else d) = e := by
  have hpairs : c.docs.Pairwise fun d e => ¬(p d = true ∧ p e = true) :=
    (List.Nodup.of_map key c.distinct).imp_of_mem fun hd he hne hboth =>
      hne (h _ hd _ he hboth.1 hboth.2)
  show e ∈ updateFirst p f c.docs ↔ _
  rw [updateFirst_eq_map hpairs]
  exact List.mem_map

theorem mem_updateOne_of_unique (hd : d ∈ c) (hp : p d = true)
    (hone : ∀ e ∈ c, p e = true → e = d) :
    e ∈ c.updateOne p f hf ↔ e = f d ∨ (e ∈ c ∧ p e = false) := by
  have hall : ∀ d' ∈ c, ∀ e ∈ c, p d' = true → p e = true → d' = e :=
    fun d' hd' e he hpd hpe => (hone d' hd' hpd).trans (hone e he hpe).symm
  rw [mem_updateOne_iff hall]
  constructor
  · rintro ⟨e', he', heq⟩
    cases hpe : p e' with
    | true =>
      rw [if_pos hpe] at heq
      rw [← heq, hone e' he' hpe]
      exact Or.inl rfl
    | false =>
      rw [if_neg fun h => by rw [hpe] at h; cases h] at heq
      exact Or.inr (heq ▸ ⟨he', hpe⟩)
  · rintro (rfl | ⟨he, hpe⟩)
    · exact ⟨d, hd, if_pos hp⟩
    · exact ⟨e, he, if_neg fun h => by rw [hpe] at h; cases h⟩

end UpdateOne

def updateMany (c : Collection key) (p : δ → Bool) (f : δ → δ) (hf : ∀ d, key (f d) = key d) :
    Collection key where
  docs := c.docs.map fun d => if p d then f d else d
  distinct := by
    have hkeys : (c.docs.map fun d => if p d then f d else d).map key = c.docs.map key := by
      rw [List.map_map]
      apply List.map_congr_left
      intro d _
      show key (if p d then f d else d) = key d
      split
      · exact hf d
      · rfl
    rw [hkeys]
    exact c.distinct

@[simp] theorem mem_updateMany {p : δ → Bool} {f : δ → δ} {hf : ∀ d, key (f d) = key d} :
    e ∈ c.updateMany p f hf ↔ ∃ d ∈ c, (if p d then f d else d) = e :=
  List.mem_map

section Get

variable [DecidableEq κ] {k : κ}
variable {p : δ → Bool} {f : δ → δ}

/-- `find_one` by the key. -/
def get (c : Collection key) (k : κ) : Option δ := c.docs.find? fun d => key d == k

theorem get_eq_some_iff : c.get k = some d ↔ d ∈ c ∧ key d = k := by
  have hsound : ∀ e, c.get k = some e → e ∈ c ∧ key e = k := by
    intro e h
    have hquery : (key e == k) = true := List.find?_some (p := fun d => key d == k) h
    exact ⟨List.mem_of_find?_eq_some h, beq_iff_eq.mp hquery⟩
  constructor
  · exact hsound d
  · rintro ⟨hmem, hkey⟩
    cases hfound : c.get k with
    | none => exact absurd (beq_iff_eq.mpr hkey) (List.find?_eq_none.mp hfound d hmem)
    | some e =>
      obtain ⟨he, hkey'⟩ := hsound e hfound
      rw [eq_of_key he hmem (hkey'.trans hkey.symm)]

theorem get_eq_none_iff : c.get k = none ↔ ∀ d ∈ c, key d ≠ k := by
  unfold get
  rw [List.find?_eq_none]
  exact forall₂_congr fun d _ => not_congr beq_iff_eq

theorem get_replaceOne : (c.replaceOne d).get k = if key d = k then some d else c.get k := by
  apply Option.ext
  intro e
  rw [get_eq_some_iff, mem_replaceOne]
  by_cases hkey : key d = k
  · rw [if_pos hkey, Option.some.injEq]
    constructor
    · rintro ⟨heq | ⟨-, hne⟩, he⟩
      · exact heq.symm
      · exact absurd (he.trans hkey.symm) hne
    · intro heq
      rw [← heq]
      exact ⟨Or.inl rfl, hkey⟩
  · rw [if_neg hkey, get_eq_some_iff]
    constructor
    · rintro ⟨heq | ⟨hmem, -⟩, he⟩
      · exact absurd (heq ▸ he) hkey
      · exact ⟨hmem, he⟩
    · rintro ⟨hmem, he⟩
      exact ⟨Or.inr ⟨hmem, fun h => hkey (h.symm.trans he)⟩, he⟩

theorem get_of_mem_iff {c' : Collection key}
    (hf : ∀ d, key (f d) = key d)
    (hmem : ∀ e, e ∈ c' ↔ ∃ d ∈ c, (if p d then f d else d) = e) :
    c'.get k = (c.get k).map fun d => if p d then f d else d := by
  have hkey : ∀ d, key (if p d then f d else d) = key d := by
    intro d
    split
    · exact hf d
    · rfl
  apply Option.ext
  intro e
  rw [get_eq_some_iff, hmem, Option.map_eq_some_iff]
  constructor
  · rintro ⟨⟨d, hd, rfl⟩, he⟩
    exact ⟨d, get_eq_some_iff.mpr ⟨hd, (hkey d).symm.trans he⟩, rfl⟩
  · rintro ⟨d, hd, rfl⟩
    obtain ⟨hd, hk⟩ := get_eq_some_iff.mp hd
    exact ⟨⟨d, hd, rfl⟩, (hkey d).trans hk⟩

theorem get_updateOne (hf : ∀ d, key (f d) = key d)
    (h : ∀ d ∈ c, ∀ e ∈ c, p d = true → p e = true → d = e) :
    (c.updateOne p f hf).get k = (c.get k).map fun d => if p d then f d else d :=
  get_of_mem_iff hf fun _ => mem_updateOne_iff h

theorem get_updateMany (hf : ∀ d, key (f d) = key d) :
    (c.updateMany p f hf).get k = (c.get k).map fun d => if p d then f d else d :=
  get_of_mem_iff hf fun _ => mem_updateMany

theorem countP_filter_key {docs : List δ} (hnodup : (docs.map key).Nodup)
    (hd : d ∈ docs) :
    (docs.filter fun e => !(key e == key d)).countP p + (if p d then 1 else 0) = docs.countP p := by
  induction docs with
  | nil => exact absurd hd List.not_mem_nil
  | cons e rest ih =>
    rw [List.map_cons, List.nodup_cons] at hnodup
    rw [List.countP_cons]
    by_cases he : key e = key d
    · have hed : e = d := by
        rcases List.mem_cons.mp hd with heq | hrest
        · exact heq.symm
        · exact absurd (List.mem_map.mpr ⟨d, hrest, he.symm⟩) hnodup.1
      have hstay : rest.filter (fun e => !(key e == key d)) = rest := by
        rw [List.filter_eq_self]
        intro f hf
        have hne : key f ≠ key d := fun h =>
          hnodup.1 (List.mem_map.mpr ⟨f, hf, h.trans he.symm⟩)
        simpa using hne
      rw [List.filter_cons_of_neg (by simp [he]), hstay, hed]
    · have hrest : d ∈ rest := (List.mem_cons.mp hd).resolve_left fun h => he (h ▸ rfl)
      have hcount := ih hnodup.2 hrest
      rw [List.filter_cons_of_pos (by simp [he]), List.countP_cons]
      omega

theorem countP_deleteMany_key (hd : d ∈ c) :
    (c.deleteMany fun e => key e == key d).docs.countP p + (if p d then 1 else 0) =
      c.docs.countP p :=
  countP_filter_key c.distinct hd

end Get

end Collection

end Lib
