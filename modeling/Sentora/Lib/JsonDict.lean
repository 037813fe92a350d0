import Sentora.Lib.Json
import Sentora.Lib.RangeSort
import Sentora.Lib.Tables

namespace Lib

namespace Json

mutual
/-- The tree with the members of each object in the order of their names. -/
def sortKeys : Json → Json
  | .arr xs => .arr (sortElems xs)
  | .obj ms => .obj (sortBy Prod.fst (sortMembers ms))
  | .null => .null
  | .bool b => .bool b
  | .int i => .int i
  | .float x => .float x
  | .str s => .str s

def sortElems : List Json → List Json
  | [] => []
  | x :: xs => x.sortKeys :: sortElems xs

def sortMembers : List (String × Json) → List (String × Json)
  | [] => []
  | (k, v) :: ms => (k, v.sortKeys) :: sortMembers ms
end

theorem sortElems_eq_map (xs : List Json) : sortElems xs = xs.map sortKeys := by
  induction xs with
  | nil => rfl
  | cons x xs ih => rw [sortElems, List.map_cons, ih]

theorem sortMembers_eq_map (ms : List (String × Json)) :
    sortMembers ms = ms.map fun m => (m.1, m.2.sortKeys) := by
  induction ms with
  | nil => rfl
  | cons m ms ih =>
    obtain ⟨k, v⟩ := m
    rw [sortMembers, List.map_cons, ih]

theorem perm_members_of_sortKeys_eq {ms ns : List (String × Json)}
    (h : (Json.obj ms).sortKeys = (Json.obj ns).sortKeys) :
    (ms.map fun m => (m.1, m.2.sortKeys)).Perm (ns.map fun m => (m.1, m.2.sortKeys)) := by
  rw [sortKeys, sortKeys, Json.obj.injEq] at h
  have hms := perm_sortBy Prod.fst (sortMembers ms)
  rw [h] at hms
  rw [← sortMembers_eq_map, ← sortMembers_eq_map]
  exact hms.symm.trans (perm_sortBy _ _)

theorem perm_keys_of_sortKeys_eq {ms ns : List (String × Json)}
    (h : (Json.obj ms).sortKeys = (Json.obj ns).sortKeys) :
    (ms.map Prod.fst).Perm (ns.map Prod.fst) := by
  have hperm := (perm_members_of_sortKeys_eq h).map Prod.fst
  rw [List.map_map, List.map_map] at hperm
  exact hperm

end Json

/-- A table from names to values. -/
structure JsonDict where
  members : List (String × Json)
  distinct : (members.map Prod.fst).Nodup

namespace JsonDict

def empty : JsonDict := ⟨[], List.nodup_nil⟩

def get (d : JsonDict) (k : String) : Option Json := d.members.lookup k

/-- `dict.get` with a default. -/
def getD (d : JsonDict) (k : String) (value : Json) : Json := (d.get k).getD value

def toJson (d : JsonDict) : Json := .obj d.members

/-- The members of a table, changed and extended by those of another. -/
def updateMembers (ms ns : List (String × Json)) : List (String × Json) :=
  (ms.map fun m => (m.1, (ns.lookup m.1).getD m.2)) ++
    ns.filter fun n => n.1 ∉ ms.map Prod.fst

/-- `dict.update`. -/
def update (d e : JsonDict) : JsonDict where
  members := updateMembers d.members e.members
  distinct := by
    have hkeys : (d.members.map fun m => (m.1, (e.members.lookup m.1).getD m.2)).map Prod.fst =
        d.members.map Prod.fst := by
      rw [List.map_map]
      rfl
    rw [updateMembers, List.map_append, hkeys]
    refine d.distinct.append (e.distinct.sublist (List.filter_sublist.map _)) ?_
    intro k hd he
    obtain ⟨m, hm, hk⟩ := List.mem_map.mp he
    rw [← hk] at hd
    exact of_decide_eq_true (List.mem_filter.mp hm).2 hd

section Tables

variable {d e : JsonDict} {k : String} {v : Json} {α : Type}

theorem get_eq_some_iff : d.get k = some v ↔ (k, v) ∈ d.members := lookup_eq_some_iff d.distinct

/-- Tables that are written alike hold values that are written alike. -/
theorem map_get_of_sortKeys_eq (h : d.toJson.sortKeys = e.toJson.sortKeys) (k : String) :
    (d.get k).map Json.sortKeys = (e.get k).map Json.sortKeys := by
  have hperm := Json.perm_members_of_sortKeys_eq h
  have hget : ∀ (t : JsonDict) (j : Json), (t.get k).map Json.sortKeys = some j ↔
      (k, j) ∈ t.members.map fun m => (m.1, m.2.sortKeys) := by
    intro t j
    rw [Option.map_eq_some_iff, List.mem_map]
    constructor
    · intro ⟨v, hv, hj⟩
      exact ⟨(k, v), get_eq_some_iff.mp hv, by rw [hj]⟩
    · intro ⟨m, hm, heq⟩
      obtain ⟨hk, hj⟩ := Prod.mk.inj heq
      refine ⟨m.2, get_eq_some_iff.mpr ?_, hj⟩
      rw [← hk]
      exact hm
  ext j
  rw [hget, hget, hperm.mem_iff]

theorem read_getD_eq {read : Json → α} (hread : ∀ j, read j.sortKeys = read j)
    (h : d.toJson.sortKeys = e.toJson.sortKeys) (k : String) (value : Json) :
    read (d.getD k value) = read (e.getD k value) := by
  have hread' : ∀ t : JsonDict, read (t.getD k value) =
      (((t.get k).map Json.sortKeys).map read).getD (read value) := by
    intro t
    unfold getD
    cases t.get k with
    | none => rfl
    | some j => exact (hread j).symm
  rw [hread', hread', map_get_of_sortKeys_eq h]

end Tables

end JsonDict

end Lib
