import Sentora.Lib.Collection

namespace Lib

variable {δ κ ι : Type} {key : δ → κ} {index : δ → ι}

structure Indexed (key : δ → κ) (index : δ → ι) extends Collection key where
  unique : (docs.map index).Nodup

namespace Indexed

variable {c c' : Indexed key index} {d e : δ}

instance : Membership δ (Indexed key index) := ⟨fun c d => d ∈ c.docs⟩

theorem mem_def : d ∈ c ↔ d ∈ c.docs := Iff.rfl

theorem eq_of_key (hd : d ∈ c) (he : e ∈ c) (h : key d = key e) : d = e :=
  c.toCollection.eq_of_key hd he h

theorem eq_of_index (hd : d ∈ c) (he : e ∈ c) (h : index d = index e) : d = e :=
  List.inj_on_of_nodup_map c.unique hd he h

def empty : Indexed key index := ⟨.empty, List.nodup_nil⟩

/-- `find_one` by the index. -/
def getBy [DecidableEq ι] (c : Indexed key index) (i : ι) : Option δ :=
  c.docs.find? fun d => index d == i

section GetBy

variable [DecidableEq ι] {i : ι}

theorem getBy_eq_some_iff : c.getBy i = some d ↔ d ∈ c ∧ index d = i := by
  have hsound : ∀ e, c.getBy i = some e → e ∈ c ∧ index e = i := by
    intro e h
    have hquery : (index e == i) = true := List.find?_some (p := fun d => index d == i) h
    exact ⟨List.mem_of_find?_eq_some h, beq_iff_eq.mp hquery⟩
  constructor
  · exact hsound d
  · rintro ⟨hmem, hindex⟩
    cases hfound : c.getBy i with
    | none => exact absurd (beq_iff_eq.mpr hindex) (List.find?_eq_none.mp hfound d hmem)
    | some e =>
      obtain ⟨he, hindex'⟩ := hsound e hfound
      rw [eq_of_index he hmem (hindex'.trans hindex.symm)]

theorem getBy_eq_none_iff : c.getBy i = none ↔ ∀ d ∈ c, index d ≠ i := by
  unfold getBy
  rw [List.find?_eq_none]
  exact forall₂_congr fun d _ => not_congr beq_iff_eq

end GetBy

section Insert

variable [DecidableEq κ] [DecidableEq ι]

def insertOne (c : Indexed key index) (d : δ) : Option (Indexed key index) :=
  if h : key d ∈ c.docs.map key ∨ index d ∈ c.docs.map index then none
  else
    some {
      docs := c.docs ++ [d]
      distinct := by
        rw [List.map_append]
        exact c.distinct.append (List.nodup_singleton _)
          (List.disjoint_singleton.mpr fun hmem => h (Or.inl hmem))
      unique := by
        rw [List.map_append]
        exact c.unique.append (List.nodup_singleton _)
          (List.disjoint_singleton.mpr fun hmem => h (Or.inr hmem)) }

theorem docs_insertOne (h : c.insertOne d = some c') : c'.docs = c.docs ++ [d] := by
  unfold insertOne at h
  split at h
  · cases h
  · rw [← Option.some.inj h]

theorem mem_insertOne (h : c.insertOne d = some c') : e ∈ c' ↔ e ∈ c ∨ e = d := by
  rw [mem_def, docs_insertOne h, List.mem_append, List.mem_singleton]
  rfl

theorem free_of_insertOne (h : c.insertOne d = some c') (he : e ∈ c) :
    key e ≠ key d ∧ index e ≠ index d := by
  unfold insertOne at h
  split at h
  · cases h
  · rename_i hfree
    rw [not_or] at hfree
    exact ⟨fun heq => hfree.1 (List.mem_map.mpr ⟨e, he, heq⟩),
      fun heq => hfree.2 (List.mem_map.mpr ⟨e, he, heq⟩)⟩

theorem insertOne_of_free (hkey : ∀ e ∈ c, key e ≠ key d) (hindex : ∀ e ∈ c, index e ≠ index d) :
    ∃ c', c.insertOne d = some c' := by
  have hfree : ¬(key d ∈ c.docs.map key ∨ index d ∈ c.docs.map index) := by
    rintro (hmem | hmem)
    · obtain ⟨e, he, heq⟩ := List.mem_map.mp hmem
      exact hkey e he heq
    · obtain ⟨e, he, heq⟩ := List.mem_map.mp hmem
      exact hindex e he heq
  unfold insertOne
  rw [dif_neg hfree]
  exact ⟨_, rfl⟩

end Insert

/-- `update_one` with an update that leaves the key, and the index of the documents
it is for. -/
def updateOne (c : Indexed key index) (p : δ → Bool) (f : δ → δ) (hf : ∀ d, key (f d) = key d)
    (hindex : ∀ d, p d = true → index (f d) = index d) : Indexed key index where
  toCollection := c.toCollection.updateOne p f hf
  unique := by
    show ((Collection.updateFirst p f c.docs).map index).Nodup
    rw [Collection.keys_updateFirst hindex]
    exact c.unique

theorem mem_updateOne {p : δ → Bool} {f : δ → δ} (hf : ∀ d, key (f d) = key d)
    (hindex : ∀ d, p d = true → index (f d) = index d) (hd : d ∈ c) (hp : p d = true)
    (hone : ∀ e ∈ c, p e = true → e = d) :
    e ∈ c.updateOne p f hf hindex ↔ e = f d ∨ (e ∈ c ∧ p e = false) := by
  show e ∈ c.toCollection.updateOne p f hf ↔ _
  rw [Collection.mem_updateOne_of_unique hd hp hone]
  rfl

section Move

variable [DecidableEq ι]

/-- `update_one` by the index with an update that leaves the key.  It is refused where
another document has the new value of the index. -/
def moveOne (c : Indexed key index) (i : ι) (f : δ → δ) (hf : ∀ d, key (f d) = key d) :
    Option (Indexed key index) :=
  if h : ((Collection.updateFirst (fun d => index d == i) f c.docs).map index).Nodup then
    some { toCollection := c.toCollection.updateOne (fun d => index d == i) f hf, unique := h }
  else none

theorem mem_moveOne {i : ι} {f : δ → δ} {hf : ∀ d, key (f d) = key d}
    (h : c.moveOne i f hf = some c') (hd : d ∈ c) (hi : index d = i) :
    e ∈ c' ↔ e = f d ∨ (e ∈ c ∧ index e ≠ i) := by
  unfold moveOne at h
  split at h
  · rw [← Option.some.inj h]
    show e ∈ c.toCollection.updateOne (fun d => index d == i) f hf ↔ _
    have hone : ∀ e ∈ c, (index e == i) = true → e = d := fun e he hp =>
      eq_of_index he hd ((beq_iff_eq.mp hp).trans hi.symm)
    rw [@Collection.mem_updateOne_of_unique δ κ key c.toCollection d e (fun d => index d == i) f hf
      hd (beq_iff_eq.mpr hi) hone, beq_eq_false_iff_ne]
    rfl
  · cases h

end Move

def deleteMany (c : Indexed key index) (p : δ → Bool) : Indexed key index where
  toCollection := c.toCollection.deleteMany p
  unique := c.unique.sublist (List.filter_sublist.map index)

@[simp] theorem mem_deleteMany {p : δ → Bool} : d ∈ c.deleteMany p ↔ d ∈ c ∧ p d = false :=
  Collection.mem_deleteMany

end Indexed

end Lib
