import Sentora.Fingerprints.Documents
import Sentora.Lib.Machine

/-!
# Reordering among other edits

`reorder_markers` of `domains/fingerprint/repository.py` with the updates that may come between
its two database steps.  It writes back the markers that it has read, in another order, unless
their number has changed.
-/

namespace Sentora.Fingerprints.Reordering

open Lib Library

structure MarkerUpdates where
  weight : Option ℚ := none
  pattern : Option String := none
  displayName : Option String := none

def MarkerUpdates.apply (updates : MarkerUpdates) (m : FingerprintMarker) : FingerprintMarker :=
  { m with
    weight := updates.weight.getD m.weight
    pattern := updates.pattern.getD m.pattern
    displayName := updates.displayName.getD m.displayName }

/-- The `$set` with an array filter on the `_id`. -/
def setMarker (markerId : Nat) (updates : MarkerUpdates) (markers : List FingerprintMarker) :
    List FingerprintMarker :=
  markers.map fun m => if m.id = some markerId then updates.apply m else m

def updateMarker (db : Database) (groupId : String) (markerId : Nat) (updates : MarkerUpdates)
    (now : Int) : Database :=
  db.updateMarkers groupId now (setMarker markerId updates)

def pullMarker (markerId : Nat) (markers : List FingerprintMarker) : List FingerprintMarker :=
  markers.filter fun m => m.id ≠ some markerId

def removeMarker (db : Database) (groupId : String) (markerId : Nat) (now : Int) : Database :=
  db.updateMarkers groupId now (pullMarker markerId)

/-- A marker without an `_id` is read with a new one. -/
def identify : Nat → List FingerprintMarker → List FingerprintMarker
  | _, [] => []
  | n, m :: rest =>
    if m.id = none then { m with id := some n } :: identify (n + 1) rest else m :: identify n rest

/-- `{m.id: m for m in fp.markers}`. -/
def markerMap (markers : List FingerprintMarker) : List FingerprintMarker :=
  markers.foldl (fun map m => putDoc FingerprintMarker.id m map) []

/-- `marker_map.pop` of an id that is in the map, behind what has been reordered. -/
def pick (found : List FingerprintMarker × List FingerprintMarker) (markerId : Nat) :
    List FingerprintMarker × List FingerprintMarker :=
  match found.1.find? fun m => m.id = some markerId with
  | some m => (pullMarker markerId found.1, found.2 ++ [m])
  | none => found

def reordered (markers : List FingerprintMarker) (orderedIds : List Nat) :
    List FingerprintMarker :=
  let found := orderedIds.foldl pick (markerMap markers, [])
  found.2 ++ found.1

structure Reorder where
  markers : List FingerprintMarker
  orderedIds : List Nat
deriving DecidableEq

def startReorder (db : Database) (groupId : String) (orderedIds : List Nat) : Option Reorder :=
  match getByGroupId db groupId with
  | .ok (some fp) =>
    if fp.markers.length = 0 then none else some ⟨identify db.nextId fp.markers, orderedIds⟩
  | _ => none

/-- The guard, which asks for an element with the last index and none behind it. -/
def sameCount (r : Reorder) (markers : List FingerprintMarker) : Bool :=
  r.markers.length - 1 < markers.length && !(r.markers.length < markers.length)

def finishReorder (db : Database) (groupId : String) (r : Reorder) (now : Int) : Database :=
  if (markersOf db groupId).any (sameCount r) then
    db.updateMarkers groupId now fun _ => reordered r.markers r.orderedIds
  else db

/-- The calls that reorder by their number, and the ids of the markers added so far. -/
structure State where
  db : Database
  used : List Nat
  calls : Nat → Option Reorder

inductive Act where
  | addMarker (marker : FingerprintMarker) (now : Int)
  | updateMarker (markerId : Nat) (updates : MarkerUpdates) (now : Int)
  | removeMarker (markerId : Nat) (now : Int)
  | startReorder (call : Nat) (orderedIds : List Nat)
  | finishReorder (call : Nat) (now : Int)

/-- A marker is added under a new id. -/
def Enabled (s : State) : Act → Prop
  | .addMarker marker _ => ∃ id, marker.id = some id ∧ id ∉ s.used
  | .updateMarker .. => True
  | .removeMarker .. => True
  | .startReorder call _ => s.calls call = none
  | .finishReorder call _ => s.calls call ≠ none

def perform (g : String) (s : State) : Act → State
  | .addMarker marker now =>
    { s with db := addMarker s.db g marker now, used := s.used ++ marker.id.toList }
  | .updateMarker markerId updates now => { s with db := updateMarker s.db g markerId updates now }
  | .removeMarker markerId now => { s with db := removeMarker s.db g markerId now }
  | .startReorder call orderedIds =>
    { s with calls := Function.update s.calls call (startReorder s.db g orderedIds) }
  | .finishReorder call now =>
    match s.calls call with
    | none => s
    | some r =>
      { s with
        db := finishReorder s.db g r now
        calls := Function.update s.calls call none }

def editors (g : String) : Machine State Act := ⟨Enabled, perform g⟩

def edit (markers : List FingerprintMarker) : Act → List FingerprintMarker
  | .addMarker marker _ => markers ++ [marker]
  | .updateMarker markerId updates _ => setMarker markerId updates markers
  | .removeMarker markerId _ => pullMarker markerId markers
  | .startReorder .. => markers
  | .finishReorder .. => markers

def edited (markers : List FingerprintMarker) (acts : List Act) : List FingerprintMarker :=
  acts.foldl edit markers

def markersIn (g : String) (s : State) : List FingerprintMarker := (markersOf s.db g).getD []

/-- The markers that the edits leave are there in some order, each of them once, and no
others. -/
structure KeepsEdits (g : String) (left : List FingerprintMarker) (s : State) : Prop where
  same : (markersIn g s).Perm left
  once : ((markersIn g s).map FingerprintMarker.id).Nodup

/-- A call that writes finds the markers that it has read, in some order, or another number
of them. -/
def Undisturbed (g : String) (s : State) : Act → Prop
  | .finishReorder call _ => ∀ r, s.calls call = some r →
      (markersIn g s).Perm r.markers ∨ (markersIn g s).length ≠ r.markers.length
  | _ => True

/-- The fingerprint of the group has markers with ids of their own, and no call is under
way. -/
structure Starts (g : String) (s : State) : Prop where
  stored : (markersOf s.db g).isSome = true
  ids : ∀ m ∈ markersIn g s, ∃ id, m.id = some id ∧ id ∈ s.used
  distinct : ((markersIn g s).map FingerprintMarker.id).Nodup
  idle : ∀ call, s.calls call = none

variable {g : String} {s : State} {act : Act} {acts : List Act} {m : FingerprintMarker}
  {markers rest left : List FingerprintMarker} {markerId n : Nat} {updates : MarkerUpdates}

section Reordered

theorem identify_of_ids (h : ∀ m ∈ markers, m.id ≠ none) : identify n markers = markers := by
  induction markers with
  | nil => rfl
  | cons m rest ih =>
    rw [identify, if_neg (h m List.mem_cons_self), ih fun m hm => h m (List.mem_cons_of_mem _ hm)]

theorem putDoc_of_new (h : m.id ∉ rest.map FingerprintMarker.id) :
    putDoc FingerprintMarker.id m rest = rest ++ [m] := by
  induction rest with
  | nil => rfl
  | cons first rest ih =>
    rw [List.map_cons, List.mem_cons, not_or] at h
    rw [putDoc, if_neg (Ne.symm h.1), ih h.2]
    rfl

theorem markerMap_of_nodup (h : (markers.map FingerprintMarker.id).Nodup) :
    markerMap markers = markers := by
  have hfold : ∀ later seen : List FingerprintMarker,
      ((seen ++ later).map FingerprintMarker.id).Nodup →
        later.foldl (fun map m => putDoc FingerprintMarker.id m map) seen = seen ++ later := by
    intro later
    induction later with
    | nil => exact fun seen _ => (List.append_nil seen).symm
    | cons m later ih =>
      intro seen hnodup
      have hnew : m.id ∉ seen.map FingerprintMarker.id := by
        intro hmem
        rw [List.map_append, List.map_cons] at hnodup
        exact (List.nodup_append.mp hnodup).2.2 _ hmem _ List.mem_cons_self rfl
      have hsplit : seen ++ m :: later = (seen ++ [m]) ++ later := by simp
      rw [hsplit] at hnodup
      rw [List.foldl_cons, putDoc_of_new hnew, ih _ hnodup, hsplit]
  exact hfold markers [] h

theorem pullMarker_of_not_mem (h : some markerId ∉ markers.map FingerprintMarker.id) :
    pullMarker markerId markers = markers := by
  refine List.filter_eq_self.mpr fun m hm => decide_eq_true fun heq => ?_
  exact h (heq ▸ List.mem_map_of_mem hm)

theorem cons_pullMarker_perm (hnodup : (markers.map FingerprintMarker.id).Nodup) (hm : m ∈ markers)
    (hid : m.id = some markerId) : (m :: pullMarker markerId markers).Perm markers := by
  induction markers with
  | nil => exact absurd hm List.not_mem_nil
  | cons first rest ih =>
    rw [List.map_cons, List.nodup_cons] at hnodup
    rcases List.mem_cons.mp hm with rfl | hlater
    · have hrest := pullMarker_of_not_mem (hid ▸ hnodup.1)
      unfold pullMarker at hrest ⊢
      rw [List.filter_cons_of_neg (by simpa using hid), hrest]
    · have hfirst : first.id ≠ some markerId := by
        intro heq
        rw [heq, ← hid] at hnodup
        exact hnodup.1 (List.mem_map_of_mem hlater)
      have hrest := ih hnodup.2 hlater
      unfold pullMarker at hrest ⊢
      rw [List.filter_cons_of_pos (by simpa using hfirst)]
      exact (List.Perm.swap ..).trans (hrest.cons first)

theorem pick_perm {found : List FingerprintMarker × List FingerprintMarker}
    (h : (found.1.map FingerprintMarker.id).Nodup) :
    ((pick found markerId).2 ++ (pick found markerId).1).Perm (found.2 ++ found.1) ∧
      ((pick found markerId).1.map FingerprintMarker.id).Nodup := by
  unfold pick
  cases hfound : found.1.find? fun m => m.id = some markerId with
  | none => exact ⟨List.Perm.refl _, h⟩
  | some m =>
    have hmem := List.mem_of_find?_eq_some hfound
    have hid : m.id = some markerId := by simpa using List.find?_some hfound
    constructor
    · dsimp only
      rw [List.append_assoc]
      exact (cons_pullMarker_perm h hmem hid).append_left found.2
    · exact h.sublist (List.filter_sublist.map _)

theorem reordered_perm (h : (markers.map FingerprintMarker.id).Nodup) (orderedIds : List Nat) :
    (reordered markers orderedIds).Perm markers := by
  have hfold : ∀ (ids : List Nat) (found : List FingerprintMarker × List FingerprintMarker),
      (found.1.map FingerprintMarker.id).Nodup →
        ((ids.foldl pick found).2 ++ (ids.foldl pick found).1).Perm (found.2 ++ found.1) := by
    intro ids
    induction ids with
    | nil => exact fun found _ => List.Perm.refl _
    | cons markerId ids ih =>
      intro found hnodup
      obtain ⟨hperm, hleft⟩ := @pick_perm markerId found hnodup
      exact (ih _ hleft).trans hperm
  have hall := hfold orderedIds (markerMap markers, []) (by rwa [markerMap_of_nodup h])
  rw [markerMap_of_nodup h] at hall
  unfold reordered
  rw [markerMap_of_nodup h]
  exact hall

end Reordered

section Acts

variable {r : Reorder} {now : Int}

theorem markersIn_updateMarkers {db : Database} (h : (markersOf db g).isSome = true) (now : Int)
    (f : List FingerprintMarker → List FingerprintMarker) :
    ∃ markers, markersOf db g = some markers ∧
      markersOf (db.updateMarkers g now f) g = some (f markers) := by
  obtain ⟨markers, hmarkers⟩ := Option.isSome_iff_exists.mp h
  refine ⟨markers, hmarkers, ?_⟩
  rw [markersOf_updateMarkers, if_pos rfl, hmarkers]
  rfl

theorem sameCount_iff (h : r.markers ≠ []) :
    sameCount r markers = true ↔ markers.length = r.markers.length := by
  have hpos := List.length_pos_iff.mpr h
  simp only [sameCount, Bool.and_eq_true, decide_eq_true_eq, Bool.not_eq_true',
    decide_eq_false_iff_not]
  omega

/-- What the calls have left of the markers, and what those that are under way have read. -/
structure Kept (g : String) (left : List FingerprintMarker) (s : State) : Prop where
  stored : (markersOf s.db g).isSome = true
  same : (markersIn g s).Perm left
  ids : ∀ m ∈ left, ∃ id, m.id = some id ∧ id ∈ s.used
  distinct : (left.map FingerprintMarker.id).Nodup
  read : ∀ call r, s.calls call = some r →
    r.markers ≠ [] ∧ (r.markers.map FingerprintMarker.id).Nodup

theorem Kept.keepsEdits (h : Kept g left s) : KeepsEdits g left s :=
  ⟨h.same, (h.same.map _).nodup_iff.mpr h.distinct⟩

theorem Starts.kept (h : Starts g s) : Kept g (markersIn g s) s :=
  ⟨h.stored, List.Perm.refl _, h.ids, h.distinct, fun call r hr => by
    rw [h.idle call] at hr
    cases hr⟩

theorem Kept.edits (h : Kept g left s) {f : List FingerprintMarker → List FingerprintMarker}
    {used : List Nat} (hf : ∀ a b, a.Perm b → (f a).Perm (f b))
    (hids : ∀ m ∈ f left, ∃ id, m.id = some id ∧ id ∈ used)
    (hdistinct : ((f left).map FingerprintMarker.id).Nodup) :
    Kept g (f left) { s with db := s.db.updateMarkers g now f, used := used } := by
  obtain ⟨markers, hmarkers, hafter⟩ := markersIn_updateMarkers h.stored now f
  refine ⟨?_, ?_, hids, hdistinct, h.read⟩
  · exact hafter ▸ rfl
  · have hsame := h.same
    unfold markersIn at hsame ⊢
    rw [hmarkers] at hsame
    rw [hafter]
    exact hf _ _ hsame

theorem ids_setMarker (markers : List FingerprintMarker) :
    (setMarker markerId updates markers).map FingerprintMarker.id =
      markers.map FingerprintMarker.id := by
  unfold setMarker
  rw [List.map_map]
  refine List.map_congr_left fun m _ => ?_
  rw [Function.comp_apply]
  split <;> rfl

/-- What a call reads. -/
theorem Kept.startReorder (h : Kept g left s) {ids : List Nat}
    (hr : startReorder s.db g ids = some r) :
    r.markers ≠ [] ∧ (r.markers.map FingerprintMarker.id).Nodup := by
  have hsame := h.same
  unfold markersIn markersOf at hsame
  unfold Reordering.startReorder getByGroupId at hr
  cases hget : s.db.fingerprints.get g with
  | none =>
    rw [hget] at hr
    cases hr
  | some fp =>
    rw [hget] at hr hsame
    cases hread : docToFingerprint fp with
    | error e =>
      simp only [hread] at hr
      cases hr
    | ok fp' =>
      obtain ⟨rfl, -⟩ := readable_of_ok hread
      simp only [hread, Except.map] at hr
      by_cases hcount : fp'.markers.length = 0
      · rw [if_pos hcount] at hr
        cases hr
      · rw [if_neg hcount] at hr
        have hids : ∀ m ∈ fp'.markers, m.id ≠ none := by
          intro m hm hnone
          obtain ⟨id, hid, -⟩ := h.ids m (hsame.subset hm)
          rw [hnone] at hid
          cases hid
        rw [← Option.some.inj hr]
        show identify _ _ ≠ [] ∧ ((identify _ _).map FingerprintMarker.id).Nodup
        rw [identify_of_ids hids]
        exact ⟨fun hnil => hcount (hnil ▸ rfl), (hsame.map _).nodup_iff.mpr h.distinct⟩

/-- What a write leaves, where the number is the one that was read, and where not. -/
theorem Kept.markersIn_finish (h : Kept g left s) (hr : r.markers ≠ []) (now : Int) :
    markersOf (finishReorder s.db g r now) g =
      some (if (markersIn g s).length = r.markers.length then reordered r.markers r.orderedIds
        else markersIn g s) := by
  unfold finishReorder markersIn
  obtain ⟨markers, hmarkers⟩ := Option.isSome_iff_exists.mp h.stored
  rw [hmarkers, Option.any_some, Option.getD_some]
  by_cases hcount : markers.length = r.markers.length
  · rw [if_pos ((sameCount_iff hr).mpr hcount), if_pos hcount, markersOf_updateMarkers, if_pos rfl,
      hmarkers]
    rfl
  · rw [if_neg (mt (sameCount_iff hr).mp hcount), if_neg hcount, hmarkers]

theorem perform_finishReorder {call : Nat}
    (hcall : s.calls call = some r) :
    perform g s (.finishReorder call now) =
      { s with
        db := finishReorder s.db g r now
        calls := Function.update s.calls call none } := by
  rw [perform, hcall]

theorem Kept.addMarker (h : Kept g left s) {marker : FingerprintMarker} {id : Nat}
    (hid : marker.id = some id) (hnew : id ∉ s.used) :
    Kept g (edit left (.addMarker marker now)) (perform g s (.addMarker marker now)) := by
  refine h.edits (fun a b hab => hab.append_right _) (fun m hm => ?_) ?_
  · rw [hid]
    rcases List.mem_append.mp hm with hold | hadded
    · obtain ⟨id', hid', hused⟩ := h.ids m hold
      exact ⟨id', hid', List.mem_append_left _ hused⟩
    · rw [List.mem_singleton.mp hadded]
      exact ⟨id, hid, List.mem_append_right _ List.mem_cons_self⟩
  · rw [List.map_append, List.nodup_append]
    refine ⟨h.distinct, List.nodup_singleton _, fun a ha b hb heq => ?_⟩
    obtain ⟨m, hm, rfl⟩ := List.mem_map.mp ha
    obtain ⟨id', hid', hused⟩ := h.ids m hm
    rw [List.map_singleton, List.mem_singleton] at hb
    rw [hb, hid, hid', Option.some_inj] at heq
    exact hnew (heq ▸ hused)

theorem Kept.updateMarker (h : Kept g left s) (now : Int) :
    Kept g (edit left (.updateMarker markerId updates now))
      (perform g s (.updateMarker markerId updates now)) := by
  refine h.edits (fun a b hab => hab.map _) (fun m hm => ?_) (ids_setMarker left ▸ h.distinct)
  obtain ⟨old, hold, heq⟩ := List.mem_map.mp hm
  obtain ⟨id, hid, hused⟩ := h.ids old hold
  refine ⟨id, ?_, hused⟩
  rw [← heq, ← hid]
  split <;> rfl

theorem Kept.removeMarker (h : Kept g left s) (now : Int) :
    Kept g (edit left (.removeMarker markerId now))
      (perform g s (.removeMarker markerId now)) := by
  refine h.edits (fun a b hab => hab.filter _) (fun m hm => ?_)
    (h.distinct.sublist (List.filter_sublist.map _))
  exact h.ids m (List.mem_filter.mp hm).1

/-- A write that is not disturbed puts the markers in another order, or does nothing. -/
theorem Kept.finishReorder (h : Kept g left s) {call : Nat}
    (hcall : s.calls call = some r)
    (hgood : (markersIn g s).Perm r.markers ∨ (markersIn g s).length ≠ r.markers.length) :
    Kept g left (perform g s (.finishReorder call now)) := by
  rw [perform_finishReorder hcall]
  obtain ⟨hne, hnodup⟩ := h.read call r hcall
  have hafter := h.markersIn_finish hne now
  refine ⟨hafter ▸ rfl, ?_, h.ids, h.distinct, fun call' r' hr' => ?_⟩
  · show ((markersOf (Reordering.finishReorder s.db g r now) g).getD []).Perm left
    rw [hafter, Option.getD_some]
    split
    · rename_i hcount
      rcases hgood with hsame | hother
      · exact (reordered_perm hnodup _).trans (hsame.symm.trans h.same)
      · exact absurd hcount hother
    · exact h.same
  · have hother : Function.update s.calls call none call' = some r' := hr'
    rw [Function.update_apply] at hother
    split at hother
    · cases hother
    · exact h.read call' r' hother

theorem kept_perform (h : Kept g left s) (henabled : Enabled s act)
    (hgood : Undisturbed g s act) : Kept g (edit left act) (perform g s act) := by
  cases act with
  | addMarker marker now =>
    obtain ⟨id, hid, hnew⟩ := henabled
    exact h.addMarker hid hnew
  | updateMarker markerId updates now => exact h.updateMarker now
  | removeMarker markerId now => exact h.removeMarker now
  | startReorder call orderedIds =>
    refine ⟨h.stored, h.same, h.ids, h.distinct, fun call' r hr => ?_⟩
    have hcall : Function.update s.calls call (startReorder s.db g orderedIds) call' = some r := hr
    rw [Function.update_apply] at hcall
    split at hcall
    · exact h.startReorder hcall
    · exact h.read call' r hcall
  | finishReorder call now =>
    cases hcall : s.calls call with
    | none =>
      rw [perform, hcall]
      exact h
    | some r => exact h.finishReorder hcall (hgood r hcall)

theorem Kept.disturbed (h : Kept g left s) (hbad : ¬Undisturbed g s act) :
    ¬KeepsEdits g (edit left act) (perform g s act) := by
  cases act with
  | addMarker | updateMarker | removeMarker | startReorder => exact absurd trivial hbad
  | finishReorder call now =>
    unfold Undisturbed at hbad
    push Not at hbad
    obtain ⟨r, hcall, hdiffers, hcount⟩ := hbad
    obtain ⟨hne, hnodup⟩ := h.read call r hcall
    have hafter := h.markersIn_finish hne now
    rw [if_pos hcount] at hafter
    intro hkeeps
    have hsame := hkeeps.same
    rw [perform_finishReorder hcall] at hsame
    unfold markersIn at hsame
    rw [hafter, Option.getD_some] at hsame
    exact hdiffers (h.same.trans (hsame.symm.trans (reordered_perm hnodup _)))

end Acts

theorem Kept.run (h : Kept g left s) (hrun : (editors g).Runs (Undisturbed g) s acts) :
    Kept g (edited left acts) ((editors g).after s acts) := by
  induction acts generalizing s left with
  | nil => exact h
  | cons act acts ih => exact ih (kept_perform h hrun.1.1 hrun.1.2) hrun.2

theorem Kept.undisturbed (h : Kept g left s) (hrun : (editors g).Runs (fun _ _ => True) s acts)
    (hkeeps : ∀ before, before <+: acts →
      KeepsEdits g (edited left before) ((editors g).after s before)) :
    (editors g).Runs (Undisturbed g) s acts := by
  induction acts generalizing s left with
  | nil => trivial
  | cons act acts ih =>
    obtain ⟨⟨henabled, -⟩, hrest⟩ := hrun
    have hgood : Undisturbed g s act := by
      by_contra hbad
      exact h.disturbed hbad (hkeeps [act] ⟨acts, rfl⟩)
    refine ⟨⟨henabled, hgood⟩, ih (kept_perform h henabled hgood) hrest fun before hbefore => ?_⟩
    exact hkeeps (act :: before) (List.cons_prefix_cons.mpr ⟨rfl, hbefore⟩)

/-- The edits are kept in every state of a run if and only if no call writes over markers that
were edited since it read them, where their number is the same. -/
theorem reorders_keep_edits_iff (g : String) (s : State) (hstart : Starts g s) (acts : List Act)
    (hrun : (editors g).Runs (fun _ _ => True) s acts) :
    (∀ before, before <+: acts →
      KeepsEdits g (edited (markersIn g s) before) ((editors g).after s before)) ↔
      (editors g).Runs (Undisturbed g) s acts := by
  refine ⟨hstart.kept.undisturbed hrun, fun hgood before hbefore => ?_⟩
  exact (hstart.kept.run (hgood.initial hbefore)).keepsEdits

def firefox : FingerprintMarker :=
  { id := some 1, pattern := "firefox*", displayName := "Firefox", addedAt := 0 }

def vlc : FingerprintMarker :=
  { id := some 2, pattern := "vlc*", displayName := "VLC", addedAt := 5 }

def browserPrint : Fingerprint :=
  { id := .text "f", groupId := "g", markers := [firefox], createdAt := 0, updatedAt := 0 }

def browsers : State where
  db := ⟨Collection.empty.replaceOne browserPrint, [], [], 2⟩
  used := [1]
  calls _ := none

theorem starts_browsers : Starts "g" browsers := by
  have hmarkers : markersIn "g" browsers = [firefox] := by decide +kernel
  refine ⟨by decide +kernel, ?_, ?_, fun _ => rfl⟩
  · intro m hm
    rw [hmarkers, List.mem_singleton] at hm
    exact ⟨1, hm ▸ rfl, List.mem_cons_self⟩
  · rw [hmarkers]
    exact List.nodup_singleton _

def started (orderedIds : List Nat) : State :=
  (editors "g").after browsers [.startReorder 0 orderedIds]

def removedAfter (orderedIds : List Nat) : State :=
  (editors "g").after (started orderedIds) [.removeMarker 1 4]

def addedAfter (s : State) : State := (editors "g").after s [.addMarker vlc 5]

def additionBetween : List Act :=
  [.startReorder 0 [1, 7, 1], .addMarker vlc 5, .finishReorder 0 6]

def exchangeBetween : List Act :=
  [.startReorder 0 [1], .removeMarker 1 4, .addMarker vlc 5, .finishReorder 0 6]

/-- The number of markers is another one, and nothing is written back. -/
theorem addition_is_kept :
    KeepsEdits "g" (edited (markersIn "g" browsers) additionBetween)
      ((editors "g").after browsers additionBetween) := by
  have hcall : (addedAfter (started [1, 7, 1])).calls 0 = some ⟨[firefox], [1, 7, 1]⟩ := by
    decide +kernel
  have hopen : (addedAfter (started [1, 7, 1])).calls 0 ≠ none := by simp [hcall]
  have hnew : Enabled (started [1, 7, 1]) (.addMarker vlc 5) := ⟨2, rfl, by decide⟩
  have hlength : (markersIn "g" (addedAfter (started [1, 7, 1]))).length = 2 := by decide +kernel
  refine (reorders_keep_edits_iff "g" browsers starts_browsers additionBetween
    ⟨⟨rfl, trivial⟩, ⟨hnew, trivial⟩, ⟨hopen, trivial⟩, trivial⟩).mpr
    ⟨⟨rfl, trivial⟩, ⟨hnew, trivial⟩, ⟨hopen, fun r hr => Or.inr ?_⟩, trivial⟩ additionBetween
    (List.prefix_refl _)
  rw [← Option.some.inj (hcall.symm.trans hr)]
  exact hlength.trans_ne (by decide)

/-- One marker is removed and another one added, and the write brings the first back. -/
theorem addition_is_lost :
    ¬∀ (g : String) (s : State), Starts g s → ∀ acts : List Act,
      (editors g).Runs (fun _ _ => True) s acts →
      (∀ call, ((editors g).after s acts).calls call = none) →
        KeepsEdits g (edited (markersIn g s) acts) ((editors g).after s acts) := by
  intro hclaim
  have hcall : (addedAfter (removedAfter [1])).calls 0 = some ⟨[firefox], [1]⟩ := by
    decide +kernel
  have hopen : (addedAfter (removedAfter [1])).calls 0 ≠ none := by simp [hcall]
  have hnew : Enabled (removedAfter [1]) (.addMarker vlc 5) := ⟨2, rfl, by decide⟩
  have hidle : ∀ call, ((editors "g").after browsers exchangeBetween).calls call = none := by
    intro call
    show (perform "g" (addedAfter (removedAfter [1])) (.finishReorder 0 6)).calls call = none
    rw [perform_finishReorder hcall]
    show Function.update (Function.update (fun _ => none) 0 _) 0 none call = none
    rw [Function.update_idem, Function.update_apply, ite_self]
  have hkeeps := hclaim "g" browsers starts_browsers exchangeBetween
    ⟨⟨rfl, trivial⟩, ⟨trivial, trivial⟩, ⟨hnew, trivial⟩, ⟨hopen, trivial⟩, trivial⟩ hidle
  have hmem : vlc ∈ markersIn "g" ((editors "g").after browsers exchangeBetween) :=
    hkeeps.same.mem_iff.mpr (by decide +kernel)
  revert hmem
  decide +kernel

end Sentora.Fingerprints.Reordering
