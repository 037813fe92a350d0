import Sentora.Fingerprints.Import

/-!
# Export and replacement

Which fingerprints have the same markers in a database into which the export of another one has
been imported with the strategy `replace`.
-/

namespace Sentora.Fingerprints

open Lib

variable {db source target : Database} {items : List FingerprintExportItem}
variable {item : FingerprintExportItem} {fp : Fingerprint} {g : String} {now : Int}
variable {strategy : Strategy} {response : FingerprintImportResponse}

/-- The pattern, name, category, weight, source and confidence of the markers. -/
def exportedMarkers (db : Database) (g : String) : Option (List FingerprintExportMarker) :=
  (markersOf db g).map (List.map FingerprintMarker.export)

def exported (source : Database) : List Fingerprint :=
  (sortBy Fingerprint.groupId source.fingerprints.docs).take exportLimit

/-- An export into another database leaves each fingerprint of the first with its markers
there. -/
def RoundTrips (now : Int) (source target : Database) : Prop :=
  ∃ items, exportAllFingerprints source = .ok items ∧
    ∀ fp ∈ source.fingerprints,
      exportedMarkers (importFingerprints .replace now target items).1 fp.groupId =
        some (fp.markers.map FingerprintMarker.export)

theorem mapM_docToFingerprint {fps found : List Fingerprint} :
    fps.mapM docToFingerprint = .ok found ↔ found = fps ∧ ∀ fp ∈ fps, fp.Readable := by
  induction fps generalizing found with
  | nil =>
    rw [List.mapM_nil]
    exact ⟨fun h => ⟨(Except.ok.inj h).symm, List.forall_mem_nil _⟩,
      fun h => congrArg Except.ok h.1.symm⟩
  | cons fp rest ih =>
    rw [List.mapM_cons, List.forall_mem_cons]
    cases hfp : docToFingerprint fp with
    | error e =>
      refine iff_of_false (fun h => nomatch h) fun h => ?_
      rw [docToFingerprint_of_readable h.2.1] at hfp
      cases hfp
    | ok fp' =>
      obtain ⟨heq, hread⟩ := readable_of_ok hfp
      cases hrest : rest.mapM docToFingerprint with
      | error e =>
        refine iff_of_false (fun h => nomatch h) fun h => ?_
        have hok := (@ih rest).mpr ⟨rfl, h.2.2⟩
        rw [hrest] at hok
        cases hok
      | ok found' =>
        obtain ⟨heq', hall⟩ := ih.mp hrest
        rw [heq, heq']
        exact ⟨fun h => ⟨(Except.ok.inj h).symm, hread, hall⟩,
          fun h => congrArg Except.ok h.1.symm⟩

theorem exportAllFingerprints_eq_ok_iff :
    exportAllFingerprints source = .ok items ↔
      (∀ fp ∈ exported source, fp.Readable) ∧
        items = (exported source).map fun fp =>
          ⟨fp.groupId, fp.markers.map FingerprintMarker.export⟩ := by
  have hlist : listAll source 0 exportLimit = (exported source).mapM docToFingerprint := rfl
  rw [exportAllFingerprints, hlist]
  cases hread : (exported source).mapM docToFingerprint with
  | error e =>
    refine iff_of_false (fun h => nomatch h) fun h => ?_
    rw [mapM_docToFingerprint.mpr ⟨rfl, h.1⟩] at hread
    cases hread
  | ok found =>
    obtain ⟨heq, hall⟩ := mapM_docToFingerprint.mp hread
    rw [heq]
    exact ⟨fun h => ⟨hall, (Except.ok.inj h).symm⟩, fun h => congrArg Except.ok h.2.symm⟩

theorem export_newMarkers {next : Nat} {ms : List FingerprintExportMarker} :
    (newMarkers now next ms).map FingerprintMarker.export = ms := by
  rw [newMarkers, List.map_map]
  exact List.zipIdx_map_fst next ms

theorem replace_spec (hlisted : Listed db item.groupId) :
    (∀ k, exportedMarkers (importInto .replace now db item) k =
      if k = item.groupId ∧ Readable db item.groupId then some item.markers
      else exportedMarkers db k) ∧
    (∀ k, Readable (importInto .replace now db item) k ↔ Readable db k) ∧
    (importInto .replace now db item).groups = db.groups := by
  by_cases hread : Readable db item.groupId
  · cases hget : db.fingerprints.get item.groupId with
    | none =>
      rw [importInto_of_none hlisted hget]
      refine ⟨fun k => ?_, fun k => readable_create hget rfl, groups_create⟩
      rw [exportedMarkers, createImported, markersOf_create hget]
      by_cases hk : k = item.groupId
      · rw [if_pos hk, if_pos ⟨hk, hread⟩]
        exact congrArg some export_newMarkers
      · rw [if_neg hk, if_neg fun h => hk h.1]
        rfl
    | some fp =>
      rw [importInto_of_readable hlisted hget (hread fp hget)]
      refine ⟨fun k => ?_, fun k => readable_updateMarkers, rfl⟩
      dsimp only
      rw [exportedMarkers, replaceMarkers, markersOf_updateMarkers]
      by_cases hk : k = item.groupId
      · rw [if_pos hk, if_pos ⟨hk, hread⟩, hk]
        show ((markersOf db item.groupId).map _).map _ = _
        rw [markersOf, hget]
        exact congrArg some export_newMarkers
      · rw [if_neg hk, if_neg fun h => hk h.1]
        rfl
  · rw [importInto_of_not_readable hread]
    refine ⟨fun k => ?_, fun _ => Iff.rfl, rfl⟩
    rw [if_neg fun h => hread h.2]

theorem exportedMarkers_foldl (hlisted : ∀ item ∈ items, Listed db item.groupId)
    (hdistinct : (items.map FingerprintExportItem.groupId).Nodup) :
    (∀ item ∈ items, Readable db item.groupId →
      exportedMarkers (items.foldl (importInto .replace now) db) item.groupId =
        some item.markers) ∧
    ∀ k, (k ∉ items.map FingerprintExportItem.groupId ∨ ¬Readable db k) →
      exportedMarkers (items.foldl (importInto .replace now) db) k = exportedMarkers db k := by
  induction items generalizing db with
  | nil => exact ⟨List.forall_mem_nil _, fun _ _ => rfl⟩
  | cons item rest ih =>
    obtain ⟨hnot, hrest⟩ := List.nodup_cons.mp hdistinct
    obtain ⟨hmarkers, hread, hgroups⟩ := @replace_spec _ _ now (hlisted item List.mem_cons_self)
    obtain ⟨hin, hout⟩ := @ih (importInto .replace now db item) (fun other hother => by
      rw [Listed, hgroups]
      exact hlisted other (List.mem_cons_of_mem item hother)) hrest
    rw [List.foldl_cons]
    constructor
    · intro other hother hreadable
      rcases List.mem_cons.mp hother with rfl | hlater
      · rw [hout _ (Or.inl hnot), hmarkers, if_pos ⟨rfl, hreadable⟩]
      · exact hin other hlater ((hread _).mpr hreadable)
    · intro k hk
      have hkeep : exportedMarkers (importInto .replace now db item) k = exportedMarkers db k := by
        rw [hmarkers, if_neg]
        rintro ⟨rfl, hreadable⟩
        exact hk.elim (fun h => h List.mem_cons_self) fun h => h hreadable
      rw [hout k (hk.imp (fun h hin => h (List.mem_cons_of_mem _ hin)) (mt (hread k).mp)), hkeep]

/-- Which fingerprints a round trip takes along. -/
structure Portable (source target : Database) : Prop where
  readable : ∀ fp ∈ exported source, fp.Readable
  each : ∀ fp ∈ source.fingerprints,
    (fp ∈ exported source ∧ Readable target fp.groupId) ∨
      exportedMarkers target fp.groupId = some (fp.markers.map FingerprintMarker.export)

theorem roundTrips_iff_portable
    (hlisted : ∀ fp ∈ source.fingerprints, Listed target fp.groupId) :
    RoundTrips now source target ↔ Portable source target := by
  have hmem : ∀ fp ∈ exported source, fp ∈ source.fingerprints := fun fp hfp =>
    (mem_sortBy Fingerprint.groupId).mp (List.mem_of_mem_take hfp)
  have hnodup : ((exported source).map Fingerprint.groupId).Nodup :=
    List.Nodup.sublist ((List.take_sublist _ _).map _)
      (((perm_sortBy Fingerprint.groupId source.fingerprints.docs).map _).nodup_iff.mpr
        source.fingerprints.distinct)
  have himport := @exportedMarkers_foldl target
    ((exported source).map fun fp => ⟨fp.groupId, fp.markers.map FingerprintMarker.export⟩) now
    (by
      intro item hitem
      obtain ⟨fp, hfp, rfl⟩ := List.mem_map.mp hitem
      exact hlisted fp (hmem fp hfp))
    (by rwa [List.map_map])
  have hgroups : ∀ fp ∈ source.fingerprints, fp ∉ exported source → fp.groupId ∉
      ((exported source).map fun fp => (⟨fp.groupId, fp.markers.map FingerprintMarker.export⟩ :
        FingerprintExportItem)).map FingerprintExportItem.groupId := by
    intro fp hfp hnot hin
    rw [List.map_map] at hin
    obtain ⟨other, hother, heq⟩ := List.mem_map.mp hin
    rw [Collection.eq_of_key (hmem other hother) hfp heq] at hother
    exact hnot hother
  constructor
  · intro ⟨items, hexport, hall⟩
    obtain ⟨hread, rfl⟩ := exportAllFingerprints_eq_ok_iff.mp hexport
    refine ⟨hread, fun fp hfp => ?_⟩
    by_cases hin : fp ∈ exported source ∧ Readable target fp.groupId
    · exact Or.inl hin
    · have hsame := hall fp hfp
      rw [importFingerprints_fst, himport.2] at hsame
      · exact Or.inr hsame
      · by_cases hexported : fp ∈ exported source
        · exact Or.inr fun h => hin ⟨hexported, h⟩
        · exact Or.inl (hgroups fp hfp hexported)
  · intro ⟨hread, heach⟩
    refine ⟨_, exportAllFingerprints_eq_ok_iff.mpr ⟨hread, rfl⟩, fun fp hfp => ?_⟩
    rw [importFingerprints_fst]
    by_cases hin : fp ∈ exported source ∧ Readable target fp.groupId
    · exact himport.1 _ (List.mem_map_of_mem hin.1) hin.2
    · have hsame := (heach fp hfp).resolve_left hin
      rw [himport.2, hsame]
      by_cases hexported : fp ∈ exported source
      · exact Or.inr fun h => hin ⟨hexported, h⟩
      · exact Or.inl (hgroups fp hfp hexported)

end Sentora.Fingerprints
