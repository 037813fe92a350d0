import Mathlib.Data.List.Induction
import Mathlib.Data.List.Sort

/-!
# Readers of a log

A reader of a log that only grows either tails it behind a key, or asks for what is
later than the last entry that it has seen.  `unread` is what it has still to read:
an entry comes there once and is read once, as long as it has a greater key than the
one that the reader tails behind, or is later than what the reader has fetched.
-/

namespace Lib

/-- A tailing reader with the number of entries that it has read, and a polling one
with what its last query has found. -/
inductive LogReader (α τ : Type)
  | tailing (since : Option τ) (read : Nat)
  | polling (seen : τ) (batch : List α)

namespace LogReader

variable {α τ : Type} (key time : α → τ)

/-- The time that the next query asks from. -/
def horizon (seen : τ) (batch : List α) : τ := (batch.getLast?).elim seen time

variable [LinearOrder τ]

def behind (since : Option τ) (log : List α) : List α :=
  log.filter fun a => since.all fun t => t < key a

def unread (log : List α) : LogReader α τ → List α
  | tailing since read => (behind key since log).drop read
  | polling seen batch => batch ++ log.filter fun a => horizon time seen batch < time a

/-- A query, made when the last one has been read to its end. -/
def poll (log : List α) : LogReader α τ → LogReader α τ
  | polling seen [] =>
    polling seen ((log.filter fun a => seen < time a).mergeSort fun a b => time a ≤ time b)
  | r => r

/-- An entry that comes in is none that the reader takes for seen. -/
def Awaits (a : α) : LogReader α τ → Prop
  | tailing since _ => ∀ t ∈ since, t < key a
  | polling seen batch => horizon time seen batch < time a

def next? (log : List α) : LogReader α τ → Option (α × LogReader α τ)
  | tailing since read => (behind key since log)[read]?.map fun a => (a, tailing since (read + 1))
  | polling _ [] => none
  | polling _ (a :: batch) => some (a, polling (time a) batch)

def Within (log : List α) : LogReader α τ → Prop
  | tailing since read => read ≤ (behind key since log).length
  | polling _ batch => ∀ a ∈ batch, a ∈ log

variable {key time} {log : List α} {r r' : LogReader α τ} {a : α}

theorem behind_append (since : Option τ) (log : List α) (a : α) :
    behind key since (log ++ [a]) = behind key since log ++ behind key since [a] :=
  List.filter_append ..

theorem Within.append (h : r.Within key log) (a : α) : r.Within key (log ++ [a]) := by
  cases r with
  | tailing since read =>
    rw [Within, behind_append, List.length_append]
    exact Nat.le_add_right_of_le h
  | polling seen batch => exact fun b hb => List.mem_append_left _ (h b hb)

theorem Within.poll (h : r.Within key log) : (r.poll time log).Within key log := by
  cases r with
  | tailing since read => exact h
  | polling seen batch =>
    cases batch with
    | cons b batch => exact h
    | nil =>
      intro a ha
      exact (List.mem_filter.1 ((List.mergeSort_perm ..).mem_iff.1 ha)).1

end LogReader

end Lib
