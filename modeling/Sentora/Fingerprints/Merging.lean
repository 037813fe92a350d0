import Sentora.Fingerprints.Import
import Sentora.Lib.Turns

/-!
# Merging

What an import with the strategy `merge` makes of the markers of a fingerprint: a weight for the
last marker with each pattern, and new markers at the end.
-/

namespace Sentora.Fingerprints

open Lib

variable {db : Database} {l : List FingerprintMarker} {ms : List FingerprintExportMarker}
variable {m e : FingerprintMarker} {x : FingerprintExportMarker} {p g : String} {now : Int}
variable {next : Nat} {φ ψ : String → ℚ → ℚ} {item : FingerprintExportItem}

/-- The ids of the markers have been made, each of them for one marker. -/
structure Identified (next : Nat) (l : List FingerprintMarker) : Prop where
  made : ∀ m ∈ l, ∀ i, m.id = some i → i < next
  distinct : l.Pairwise fun a b => a.id = b.id → a.id = none

/-- An update by its id sets the weight of this marker, as of the last with its pattern. -/
def IsTarget (l : List FingerprintMarker) (m : FingerprintMarker) : Prop :=
  m.id.isSome = true ∧ (existingPattern l m.pattern).map FingerprintMarker.id = some m.id

instance IsTarget.decidable : Decidable (IsTarget l m) := inferInstanceAs (Decidable (_ ∧ _))

/-- The marker with a new weight, if updates can set it. -/
def reweigh (l : List FingerprintMarker) (φ : String → ℚ → ℚ) (m : FingerprintMarker) :
    FingerprintMarker :=
  if IsTarget l m then { m with weight := φ m.pattern m.weight } else m

def weightsOf (ms : List FingerprintExportMarker) (p : String) : List ℚ :=
  (ms.filter fun x => x.pattern = p).map FingerprintExportMarker.weight

def unknown (l : List FingerprintMarker) (ms : List FingerprintExportMarker) :
    List FingerprintExportMarker :=
  ms.filter fun x => existingPattern l x.pattern = none

def merged (now : Int) (next : Nat) (l : List FingerprintMarker)
    (ms : List FingerprintExportMarker) : List FingerprintMarker :=
  l.map (reweigh l fun p w => settle w (weightsOf ms p)) ++ newMarkers now next (unknown l ms)

theorem existingPattern_eq_some (h : existingPattern l p = some e) : e ∈ l ∧ e.pattern = p := by
  obtain ⟨hmem, hpattern⟩ := List.mem_filter.mp (List.mem_of_getLast? h)
  exact ⟨hmem, of_decide_eq_true hpattern⟩

theorem existingPattern_eq_none : existingPattern l p = none ↔ ∀ m ∈ l, m.pattern ≠ p := by
  rw [existingPattern, List.getLast?_eq_none_iff, List.filter_eq_nil_iff]
  exact forall₂_congr fun m _ => by rw [decide_eq_true_iff]

theorem existingPattern_map {f : FingerprintMarker → FingerprintMarker}
    (hf : ∀ m, (f m).pattern = m.pattern) :
    existingPattern (l.map f) p = (existingPattern l p).map f := by
  rw [existingPattern, existingPattern, List.filter_map, List.getLast?_map]
  congr 2
  apply List.filter_congr
  intro m _
  rw [Function.comp_apply, hf]

theorem existingPattern_append {l' : List FingerprintMarker} :
    existingPattern (l ++ l') p = (existingPattern l' p).or (existingPattern l p) := by
  rw [existingPattern, List.filter_append, List.getLast?_append]
  rfl

theorem Identified.eq (h : Identified next l) (hm : m ∈ l) (he : e ∈ l) (hid : m.id = e.id)
    (hsome : e.id.isSome = true) : m = e := by
  have hsymm : Std.Symm fun a b : FingerprintMarker => a.id = b.id → a.id = none :=
    ⟨fun a b hab heq => heq.trans (hab heq.symm)⟩
  by_contra hne
  have hnone := h.distinct.forall hm he hne hid
  rw [← hid, hnone] at hsome
  cases hsome

@[simp] theorem reweigh_id : (reweigh l φ m).id = m.id := by
  rw [reweigh]
  split <;> rfl

@[simp] theorem reweigh_pattern : (reweigh l φ m).pattern = m.pattern := by
  rw [reweigh]
  split <;> rfl

theorem isTarget_reweigh :
    IsTarget (l.map (reweigh l φ)) (reweigh l φ m) ↔ IsTarget l m := by
  rw [IsTarget, IsTarget, reweigh_id, reweigh_pattern, existingPattern_map fun _ => reweigh_pattern,
    Option.map_map]
  have hcomp : FingerprintMarker.id ∘ reweigh l φ = FingerprintMarker.id :=
    funext fun _ => reweigh_id
  rw [hcomp]

theorem map_reweigh_reweigh :
    (l.map (reweigh l φ)).map (reweigh (l.map (reweigh l φ)) ψ) =
      l.map (reweigh l fun p w => ψ p (φ p w)) := by
  rw [List.map_map]
  apply List.map_congr_left
  intro m _
  rw [Function.comp_apply, reweigh]
  by_cases hm : IsTarget l m
  · rw [if_pos (isTarget_reweigh.mpr hm), reweigh, if_pos hm, reweigh, if_pos hm]
  · rw [if_neg (mt isTarget_reweigh.mp hm), reweigh, if_neg hm, reweigh, if_neg hm]

theorem newMarkers_append {ms' : List FingerprintExportMarker} :
    newMarkers now next (ms ++ ms') =
      newMarkers now next ms ++ newMarkers now (next + ms.length) ms' := by
  rw [newMarkers, List.zipIdx_append, List.map_append]
  rfl

theorem mem_newMarkers (h : m ∈ newMarkers now next ms) :
    ∃ i, m.id = some i ∧ next ≤ i ∧ i < next + ms.length ∧ ∃ x ∈ ms, m.pattern = x.pattern := by
  obtain ⟨⟨x, i⟩, hmem, rfl⟩ := List.mem_map.mp h
  obtain ⟨hle, hlt, hx⟩ := List.mem_zipIdx hmem
  exact ⟨i, rfl, hle, hlt, x, by rw [hx]; exact List.getElem_mem _, rfl⟩

theorem identified_newMarkers : Identified (next + ms.length) (newMarkers now next ms) := by
  constructor
  · intro m hm i hi
    obtain ⟨j, hj, _, hlt, _⟩ := mem_newMarkers hm
    rw [hi] at hj
    rwa [Option.some.inj hj]
  · have hnumbers : ((ms.zipIdx next).map Prod.snd).Nodup := by
      rw [List.zipIdx_map_snd]
      exact List.nodup_range'
    rw [newMarkers, List.pairwise_map]
    exact (List.pairwise_map.mp hnumbers).imp fun hne heq => absurd (Option.some.inj heq) hne

theorem settle_append (w v : ℚ) (ws : List ℚ) :
    settle w (ws ++ [v]) = if v ≠ w then v else settle w ws := by
  rw [settle, List.foldl_append]
  rfl

theorem weightsOf_append :
    weightsOf (ms ++ [x]) p = weightsOf ms p ++ if x.pattern = p then [x.weight] else [] := by
  rw [weightsOf, weightsOf, List.filter_append, List.map_append]
  by_cases hx : x.pattern = p
  · rw [if_pos hx, List.filter_cons_of_pos (by simpa using hx)]
    rfl
  · rw [if_neg hx, List.filter_cons_of_neg (by simpa using hx)]
    rfl

theorem isTarget_of_existing (he : existingPattern l p = some e) (hsome : e.id.isSome = true) :
    IsTarget l e := by
  refine ⟨hsome, ?_⟩
  rw [(existingPattern_eq_some he).2, he]
  rfl

theorem reweigh_append_known (hl : Identified next l) (he : existingPattern l x.pattern = some e)
    (hm : m ∈ l) :
    reweigh l (fun p w => settle w (weightsOf (ms ++ [x]) p)) m =
      if e.weight ≠ x.weight ∧ m.id.isSome = true ∧ m.id = e.id then
        { reweigh l (fun p w => settle w (weightsOf ms p)) m with weight := x.weight }
      else reweigh l (fun p w => settle w (weightsOf ms p)) m := by
  obtain ⟨hmem, hpattern⟩ := existingPattern_eq_some he
  have hsame : m.id.isSome = true → m.id = e.id → m = e := fun hsome hid =>
    hl.eq hm hmem hid (hid ▸ hsome)
  by_cases htarget : IsTarget l m
  · rw [reweigh, reweigh, if_pos htarget, if_pos htarget, weightsOf_append]
    by_cases hx : x.pattern = m.pattern
    · have hid : m.id = e.id := by
        have hexisting := htarget.2
        rw [← hx, he] at hexisting
        exact (Option.some.inj hexisting).symm
      rw [if_pos hx, settle_append, hsame htarget.1 hid]
      by_cases hweight : e.weight = x.weight
      · rw [if_neg (not_not.mpr hweight.symm), if_neg fun h => h.1 hweight]
      · rw [if_pos (Ne.symm hweight), if_pos ⟨hweight, (hsame htarget.1 hid) ▸ htarget.1, rfl⟩]
    · rw [if_neg hx, List.append_nil, if_neg]
      intro ⟨_, hsome, hid⟩
      rw [hsame hsome hid, hpattern] at hx
      exact hx rfl
  · rw [reweigh, reweigh, if_neg htarget, if_neg htarget, if_neg]
    intro ⟨_, hsome, hid⟩
    refine htarget (hsame hsome hid ▸ isTarget_of_existing he ?_)
    rwa [← hid]

theorem reweigh_append_unknown (hx : existingPattern l x.pattern = none) (hm : m ∈ l) :
    reweigh l (fun p w => settle w (weightsOf (ms ++ [x]) p)) m =
      reweigh l (fun p w => settle w (weightsOf ms p)) m := by
  have hne : x.pattern ≠ m.pattern := fun heq => existingPattern_eq_none.mp hx m hm heq.symm
  rw [reweigh, reweigh, weightsOf_append, if_neg hne, List.append_nil]

theorem unknown_append : unknown l (ms ++ [x]) =
    unknown l ms ++ if existingPattern l x.pattern = none then [x] else [] := by
  rw [unknown, unknown, List.filter_append]
  by_cases hx : existingPattern l x.pattern = none
  · rw [if_pos hx, List.filter_cons_of_pos (by simpa using hx)]
    rfl
  · rw [if_neg hx, List.filter_cons_of_neg (by simpa using hx)]
    rfl

theorem merged_append_known (hl : Identified next l)
    (he : existingPattern l x.pattern = some e) (hweight : e.weight ≠ x.weight) :
    (merged now next l ms).map (fun m =>
        if m.id.isSome = true ∧ m.id = e.id then { m with weight := x.weight } else m) =
      merged now next l (ms ++ [x]) := by
  obtain ⟨hmem, _⟩ := existingPattern_eq_some he
  rw [merged, merged, List.map_append, unknown_append, if_neg (by rw [he]; simp), List.append_nil,
    List.map_map]
  congr 1
  · apply List.map_congr_left
    intro m hm
    rw [reweigh_append_known hl he hm, Function.comp_apply, reweigh_id]
    by_cases hid : m.id.isSome = true ∧ m.id = e.id
    · rw [if_pos hid, if_pos ⟨hweight, hid⟩]
      dsimp only
      rw [reweigh_id]
    · rw [if_neg hid, if_neg fun h => hid h.2]
  · refine (List.map_congr_left fun m hm => if_neg fun h => ?_).trans (List.map_id _)
    obtain ⟨i, hi, hle, _⟩ := mem_newMarkers hm
    have hmade := hl.made e hmem i (h.2.symm.trans hi)
    omega

theorem merged_append_same (hl : Identified next l)
    (he : existingPattern l x.pattern = some e) (hweight : e.weight = x.weight) :
    merged now next l ms = merged now next l (ms ++ [x]) := by
  rw [merged, merged, unknown_append, if_neg (by rw [he]; simp), List.append_nil]
  congr 1
  apply List.map_congr_left
  intro m hm
  rw [reweigh_append_known hl he hm, if_neg fun h => h.1 hweight]

theorem merged_append_unknown (hx : existingPattern l x.pattern = none) :
    merged now next l ms ++ [newMarker now x (next + (unknown l ms).length)] =
      merged now next l (ms ++ [x]) := by
  rw [merged, merged, unknown_append, if_pos hx, newMarkers_append, List.append_assoc]
  congr 1
  exact List.map_congr_left fun m hm => (reweigh_append_unknown hx hm).symm

/-- What a group has behind an item whose markers have been merged with those it had. -/
structure MergedTo (db db' : Database) (g : String) (now : Int) (l : List FingerprintMarker)
    (ms : List FingerprintExportMarker) : Prop where
  markers : ∀ k, markersOf db' k =
    if k = g then some (merged now db.nextId l ms) else markersOf db k
  readable : ∀ k, Readable db' k ↔ Readable db k
  groups : db'.groups = db.groups
  nextId : db.nextId + (unknown l ms).length ≤ db'.nextId

theorem map_reweigh_eq_self_iff :
    l.map (reweigh l φ) = l ↔ ∀ m ∈ l, IsTarget l m → φ m.pattern m.weight = m.weight := by
  have hself : l.map (reweigh l φ) = l ↔ ∀ m ∈ l, reweigh l φ m = m := by
    conv_lhs => rhs; rw [← List.map_id l]
    exact List.map_inj_left
  rw [hself]
  refine forall₂_congr fun m _ => ?_
  rw [reweigh]
  by_cases hm : IsTarget l m
  · rw [if_pos hm, forall_prop_of_true hm]
    exact ⟨fun heq => congrArg FingerprintMarker.weight heq, fun heq => by rw [heq]⟩
  · rw [if_neg hm]
    exact iff_of_true rfl fun h => absurd h hm

theorem merged_nil : merged now next l [] = l := by
  have hself : l.map (reweigh l fun p w => settle w (weightsOf [] p)) = l :=
    map_reweigh_eq_self_iff.mpr fun _ _ _ => rfl
  rw [merged, hself]
  exact List.append_nil l

theorem mergeMarker_spec {state : Database × Bool} (hl : Identified db.nextId l)
    (h : MergedTo db state.1 g now l ms)
    (hnext : state.1.nextId = db.nextId + (unknown l ms).length) :
    MergedTo db (mergeMarker g l now state x).1 g now l (ms ++ [x]) ∧
      (mergeMarker g l now state x).1.nextId =
        db.nextId + (unknown l (ms ++ [x])).length := by
  obtain ⟨db', changed⟩ := state
  obtain ⟨hmarkers, hreadable, hgroups, _⟩ := h
  dsimp only at hmarkers hreadable hgroups hnext
  cases he : existingPattern l x.pattern with
  | none =>
    have hcount : db'.nextId + 1 = db.nextId + (unknown l (ms ++ [x])).length := by
      rw [hnext, unknown_append, if_pos he, List.length_append, Nat.add_assoc]
      rfl
    rw [mergeMarker, he]
    refine ⟨⟨fun k => ?_, fun k => readable_updateMarkers.trans (hreadable k), hgroups,
      hcount.ge⟩, hcount⟩
    rw [addMarker, markersOf_updateMarkers]
    show (if k = g then (markersOf db' k).map _ else markersOf db' k) = _
    rw [hmarkers]
    split
    · rw [← merged_append_unknown he, ← hnext]
      rfl
    · rfl
  | some e =>
    have hunknown : unknown l (ms ++ [x]) = unknown l ms := by
      rw [unknown_append, if_neg (by rw [he]; simp), List.append_nil]
    rw [mergeMarker, he]
    dsimp only
    by_cases hweight : e.weight = x.weight
    · rw [if_neg (not_not.mpr hweight)]
      rw [hunknown]
      refine ⟨⟨fun k => ?_, hreadable, hgroups, by rw [hunknown, hnext]⟩, hnext⟩
      rw [hmarkers, merged_append_same hl he hweight]
    · rw [if_pos hweight, hunknown]
      refine ⟨⟨fun k => ?_, fun k => readable_updateMarkers.trans (hreadable k), hgroups,
        by rw [hunknown]; exact hnext.ge⟩, hnext⟩
      rw [updateMarker, markersOf_updateMarkers, hmarkers]
      split
      · rw [← merged_append_known hl he hweight]
        rfl
      · rfl

theorem mergeMarkers_spec {fp : Fingerprint} (hget : db.fingerprints.get item.groupId = some fp)
    (hl : Identified db.nextId fp.markers) :
    MergedTo db (mergeMarkers db fp now item) item.groupId now fp.markers item.markers := by
  have hfold : ∀ ms : List FingerprintExportMarker, MergedTo db
      (ms.foldl (mergeMarker item.groupId fp.markers now) (db, false)).1 item.groupId now
        fp.markers ms ∧
      (ms.foldl (mergeMarker item.groupId fp.markers now) (db, false)).1.nextId =
        db.nextId + (unknown fp.markers ms).length := by
    intro ms
    induction ms using List.reverseRecOn with
    | nil =>
      refine ⟨⟨fun k => ?_, fun _ => Iff.rfl, rfl, le_rfl⟩, rfl⟩
      rw [merged_nil]
      split
      · next hk =>
        rw [hk]
        exact congrArg (Option.map Fingerprint.markers) hget
      · rfl
    | append_singleton ms x ih =>
      rw [List.foldl_append]
      exact mergeMarker_spec hl ih.1 ih.2
  obtain ⟨⟨hmarkers, hreadable, hgroups, hnext⟩, _⟩ := hfold item.markers
  rw [mergeMarkers]
  dsimp only
  split
  · refine ⟨fun k => ?_, fun k => readable_updateMarkers.trans (hreadable k), hgroups, hnext⟩
    rw [updateUpdatedAt, markersOf_updateMarkers, Option.map_id, id_eq, ite_self]
    exact hmarkers k
  · exact ⟨hmarkers, hreadable, hgroups, hnext⟩

def markersIn (db : Database) (g : String) : List FingerprintMarker := (markersOf db g).getD []

theorem unknown_empty : unknown [] ms = ms :=
  List.filter_eq_self.mpr fun _ _ => rfl

theorem merged_empty : merged now next [] ms = newMarkers now next ms := by
  rw [merged, unknown_empty]
  rfl

theorem importInto_merge_spec (hlisted : Listed db item.groupId)
    (hread : Readable db item.groupId)
    (hl : Identified db.nextId (markersIn db item.groupId)) :
    MergedTo db (importInto .merge now db item) item.groupId now (markersIn db item.groupId)
      item.markers := by
  cases hget : db.fingerprints.get item.groupId with
  | none =>
    have hempty : markersIn db item.groupId = [] := by
      rw [markersIn, markersOf, hget]
      rfl
    rw [importInto_of_none hlisted hget, hempty]
    refine ⟨fun k => ?_, fun k => readable_create hget rfl, groups_create, ?_⟩
    · rw [createImported, markersOf_create hget, merged_empty]
      rfl
    · rw [createImported, unknown_empty]
      show _ ≤ (create _ _).nextId
      rw [nextId_create]
      exact Nat.le_succ _
  | some fp =>
    have hmarkers : markersIn db item.groupId = fp.markers := by
      rw [markersIn, markersOf, hget]
      rfl
    rw [hmarkers] at hl ⊢
    rw [importInto_of_readable hlisted hget (hread fp hget)]
    exact mergeMarkers_spec hget hl

theorem identified_merged (hl : Identified next l) :
    Identified (next + (unknown l ms).length) (merged now next l ms) := by
  have hnew := @identified_newMarkers (unknown l ms) now next
  constructor
  · intro m hm i hi
    rcases List.mem_append.mp hm with hold | hadded
    · obtain ⟨m₀, hm₀, rfl⟩ := List.mem_map.mp hold
      rw [reweigh_id] at hi
      have hlt := hl.made m₀ hm₀ i hi
      omega
    · exact hnew.made m hadded i hi
  · rw [merged, List.pairwise_append]
    refine ⟨?_, hnew.distinct, fun m hm m' hm' heq => ?_⟩
    · rw [List.pairwise_map]
      simp only [reweigh_id]
      exact hl.distinct
    · obtain ⟨m₀, hm₀, rfl⟩ := List.mem_map.mp hm
      obtain ⟨i, hi, hle, _⟩ := mem_newMarkers hm'
      rw [reweigh_id, hi] at heq
      have hlt := hl.made m₀ hm₀ i heq
      omega

end Sentora.Fingerprints
