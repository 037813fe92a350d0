import Mathlib.Data.List.Nodup

namespace Lib

section LookUps

variable {κ β : Type} [BEq κ] [LawfulBEq κ] {k : κ} {v : β} {ms : List (κ × β)}

theorem lookup_eq_some_iff (h : (ms.map Prod.fst).Nodup) : ms.lookup k = some v ↔ (k, v) ∈ ms := by
  induction ms with
  | nil => exact iff_of_false nofun List.not_mem_nil
  | cons m ms ih =>
    obtain ⟨j, w⟩ := m
    rw [List.map_cons, List.nodup_cons] at h
    rw [List.lookup_cons, List.mem_cons]
    by_cases hk : k = j
    · rw [hk, beq_self_eq_true]
      constructor
      · intro hv
        exact Or.inl (by rw [← Option.some.inj hv])
      · intro hmem
        rcases hmem with heq | hlater
        · exact congrArg some (Prod.ext_iff.mp heq).2.symm
        · exact absurd (List.mem_map_of_mem hlater) h.1
    · rw [beq_false_of_ne hk, ih h.2]
      constructor
      · exact Or.inr
      · intro hmem
        exact hmem.resolve_left fun heq => hk (Prod.ext_iff.mp heq).1

theorem lookup_eq_none_iff_key : ms.lookup k = none ↔ k ∉ ms.map Prod.fst := by
  rw [List.lookup_eq_none_iff, List.mem_map]
  constructor
  · rintro h ⟨m, hm, rfl⟩
    exact bne_iff_ne.mp (h m hm) rfl
  · intro h m hm
    rw [bne_iff_ne]
    exact fun heq => h ⟨m, hm, heq.symm⟩

end LookUps

section Latest

variable {δ κ : Type} [DecidableEq κ]

/-- The last item of each key, in their order. -/
def latest (key : δ → κ) : List δ → List δ
  | [] => []
  | d :: rest => if key d ∈ rest.map key then latest key rest else d :: latest key rest

variable {key : δ → κ} {d : δ} {ds es : List δ} {k : κ}

theorem mem_keys_latest : k ∈ (latest key ds).map key ↔ k ∈ ds.map key := by
  induction ds with
  | nil => rfl
  | cons d rest ih =>
    rw [latest, List.map_cons, List.mem_cons]
    split
    · rename_i hlater
      rw [ih]
      constructor
      · exact Or.inr
      · intro h
        rcases h with heq | hrest
        · exact heq ▸ hlater
        · exact hrest
    · rw [List.map_cons, List.mem_cons, ih]

theorem nodup_keys_latest : ((latest key ds).map key).Nodup := by
  induction ds with
  | nil => exact List.nodup_nil
  | cons d rest ih =>
    rw [latest]
    split
    · exact ih
    · rename_i hlast
      rw [List.map_cons, List.nodup_cons, mem_keys_latest]
      exact ⟨hlast, ih⟩

theorem latest_eq_self (h : (ds.map key).Nodup) : latest key ds = ds := by
  induction ds with
  | nil => rfl
  | cons d rest ih =>
    rw [List.map_cons, List.nodup_cons] at h
    rw [latest, if_neg h.1, ih h.2]

/-- Later items replace those of their keys. -/
theorem latest_append :
    latest key (ds ++ es) =
      (latest key ds).filter (fun d => key d ∉ es.map key) ++ latest key es := by
  induction ds with
  | nil => rfl
  | cons d rest ih =>
    have hmem : key d ∈ (rest ++ es).map key ↔ key d ∈ rest.map key ∨ key d ∈ es.map key := by
      rw [List.map_append, List.mem_append]
    rw [List.cons_append, latest, latest, ih]
    by_cases hrest : key d ∈ rest.map key
    · rw [if_pos (hmem.mpr (Or.inl hrest)), if_pos hrest]
    · rw [if_neg hrest]
      by_cases hlater : key d ∈ es.map key
      · rw [if_pos (hmem.mpr (Or.inr hlater)), List.filter_cons_of_neg (by simpa using hlater)]
      · rw [if_neg fun h => (hmem.mp h).elim hrest hlater,
          List.filter_cons_of_pos (by simpa using hlater), List.cons_append]

end Latest

end Lib
