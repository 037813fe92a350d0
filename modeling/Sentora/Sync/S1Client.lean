import Sentora.Sync.Runner

/-!
# The SentinelOne client

The listings of `domains/sync/s1_client.py`.  A cursor is a bookmark: it names the
id after which the next page starts, and `make_agent_cursor` and `make_app_cursor`
build one from an id.
-/

namespace Sentora.Sync

open Lib Process

/-- `_s1_dt`, which drops what is below a second. -/
def s1Dt (t : Nat) : Nat := t / 1000000 * 1000000

/-- An item with the total and the cursor of its page.  The total comes with the
first item of a page only. -/
structure S1Item (α : Type) where
  total : Option Nat
  pageCursor : Option Nat
  item : α

/-- `total or None`. -/
def totalItems (total : Nat) : Option Nat := if total = 0 then none else some total

def s1Items {α : Type} (total : Nat) (cursor : Option Nat) : List α → List (S1Item α)
  | [] => []
  | x :: xs => ⟨totalItems total, cursor, x⟩ :: xs.map fun y => ⟨none, cursor, y⟩

@[simp] theorem s1Items_map_item {α : Type} (total : Nat) (cursor : Option Nat) (xs : List α) :
    (s1Items total cursor xs).map S1Item.item = xs := by
  cases xs with
  | nil => rfl
  | cons x xs => simp [s1Items, Function.comp_def]

theorem s1Items_eq_nil {α : Type} {total : Nat} {cursor : Option Nat} {xs : List α} :
    s1Items total cursor xs = [] ↔ xs = [] := by
  cases xs <;> simp [s1Items]

def s1Page {α : Type} (idOf : α → Nat) (limit : Nat) (xs : List α) (cursor : Option Nat) :
    Page (S1Item α) Nat where
  items := s1Items xs.length cursor (keysetPage idOf limit xs cursor).items
  next := (keysetPage idOf limit xs cursor).next

section Pages

variable {α : Type} {idOf : α → Nat} {limit : Nat} {xs : List α} {cursor : Option Nat}

theorem s1Page_last (hlimit : 0 < limit) (h : (s1Page idOf limit xs cursor).next = none) :
    (s1Page idOf limit xs cursor).items.map S1Item.item = after idOf xs cursor := by
  unfold s1Page at h ⊢
  rw [s1Items_map_item]
  exact last_page h hlimit

theorem s1Page_next (hsorted : xs.Pairwise fun x y => idOf x < idOf y) {c : Nat}
    (h : (s1Page idOf limit xs cursor).next = some c) :
    (s1Page idOf limit xs cursor).items ≠ [] ∧
      (s1Page idOf limit xs cursor).items.map S1Item.item ++ after idOf xs (some c) =
        after idOf xs cursor := by
  obtain ⟨hne, hsplit⟩ := next_page hsorted h
  unfold s1Page
  rw [s1Items_map_item]
  exact ⟨fun hnil => hne (s1Items_eq_nil.mp hnil), hsplit⟩

theorem s1Page_rest (cursor : Option Nat) (hlimit : 0 < limit)
    (hsorted : xs.Pairwise fun x y => idOf x < idOf y) :
    (s1Page idOf limit xs cursor).items.map S1Item.item ++
        (((s1Page idOf limit xs cursor).next.map fun c => after idOf xs (some c)).getD []) =
      after idOf xs cursor ∧
    ∀ c, (s1Page idOf limit xs cursor).next = some c →
      (after idOf xs (some c)).length < (after idOf xs cursor).length := by
  cases hnext : (s1Page idOf limit xs cursor).next with
  | none => exact ⟨(List.append_nil _).trans (s1Page_last hlimit hnext), fun c hc => nomatch hc⟩
  | some c =>
    obtain ⟨hne, hsplit⟩ := s1Page_next hsorted hnext
    refine ⟨hsplit, fun d hd => ?_⟩
    have hlength := congrArg List.length hsplit
    have hpos : 0 < (s1Page idOf limit xs cursor).items.length := List.length_pos_iff.mpr hne
    rw [List.length_append, List.length_map] at hlength
    rw [← Option.some.inj hd]
    omega

theorem mem_s1Page {y : S1Item α} (h : y ∈ (s1Page idOf limit xs cursor).items) :
    y.item ∈ after idOf xs cursor := by
  have hitem : y.item ∈ (s1Page idOf limit xs cursor).items.map S1Item.item :=
    List.mem_map_of_mem h
  unfold s1Page at hitem
  rw [s1Items_map_item] at hitem
  exact List.mem_of_mem_take hitem

end Pages

def fetchAll {α : Type} (path : String) (idOf : α → Nat) (limit pages : Nat)
    (listing : World → List α) : Phase (List α) :=
  scan
    (fun _ cursor =>
      liftM (Process.read (SyncOp.api path) fun w => keysetPage idOf limit (listing w) cursor))
    (fun collected x => pure (collected ++ [x])) (fun _ => SyncError.unfinished) pages none []

theorem returns_fetchAll {α : Type} {path : String} {idOf : α → Nat} {limit pages : Nat}
    {listing : World → List α} {w : World} (hlimit : 0 < limit)
    (hsorted : (listing w).Pairwise fun x y => idOf x < idOf y)
    (hpages : (listing w).length < pages) {xs : List α} {w' : World} :
    Returns (fetchAll path idOf limit pages listing) w xs w' ↔ xs = listing w ∧ w' = w := by
  have hall : ∃ ys w', Returns (fetchAll path idOf limit pages listing) w ys w' ∧
      ys = listing w ∧ w' = w := by
    refine returns_scan (fun x => x) (after idOf (listing w))
      (fun done ys v => ys = done ∧ v = w) ?_ ?_ hpages ⟨rfl, rfl⟩
    · rintro done ys v cursor ⟨rfl, rfl⟩
      refine ⟨_, v, returns_lift.mpr rfl, ⟨rfl, rfl⟩, fun h => ?_, fun c h => ?_⟩
      · rw [List.map_id']
        exact last_page h hlimit
      · rw [List.map_id']
        exact next_page hsorted h
    · rintro done ys v x ⟨rfl, rfl⟩
      exact ⟨_, v, returns_pure.mpr ⟨rfl, rfl⟩, rfl, rfl⟩
  obtain ⟨ys, v, hreturns, hys, hv⟩ := hall
  rw [hys, hv] at hreturns
  constructor
  · exact fun h => h.unique hreturns
  · rintro ⟨rfl, rfl⟩
    exact hreturns

end Sentora.Sync
