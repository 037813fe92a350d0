import Sentora.Compliance.Engine

/-!
# Deduplicated runs

What the results of a run have in common with those of its controls executed one by one.

The key of a control has its parameters with the names sorted.  What the executors read of a
parameter is the same for values that are written alike, with one exception: an object that
stands for a list of required apps is iterated over in the order of its names.
-/

namespace Sentora.Compliance

open Lib

section Reading

variable {j k : Json} {d e : JsonDict}

theorem truthy_sortKeys (j : Json) : truthy j.sortKeys = truthy j := by
  cases j with
  | arr xs =>
    rw [Json.sortKeys, Json.sortElems_eq_map, truthy, truthy, List.isEmpty_map]
  | obj ms =>
    have hperm := perm_sortBy Prod.fst (Json.sortMembers ms)
    rw [Json.sortKeys, truthy, truthy, hperm.isEmpty_eq, Json.sortMembers_eq_map,
      List.isEmpty_map]
  | _ => rfl

theorem number_sortKeys (j : Json) : number j.sortKeys = number j := by
  cases j with
  | arr xs => rfl
  | obj ms => rfl
  | _ => rfl

theorem mongoNumber_sortKeys (j : Json) : mongoNumber j.sortKeys = mongoNumber j := by
  cases j with
  | arr xs => rfl
  | obj ms => rfl
  | _ => rfl

theorem patternText_sortKeys (j : Json) : patternText j.sortKeys = patternText j := by
  cases j with
  | arr xs => rfl
  | obj ms => rfl
  | _ => rfl

theorem versionText_sortKeys (j : Json) : versionText j.sortKeys = versionText j := by
  cases j with
  | arr xs => rfl
  | obj ms => rfl
  | _ => rfl

theorem ninTexts_sortKeys (j : Json) : ninTexts j.sortKeys = ninTexts j := by
  cases j with
  | arr xs =>
    rw [Json.sortKeys, Json.sortElems_eq_map, ninTexts, ninTexts, List.filterMap_map]
    refine congrArg Except.ok (List.filterMap_congr fun x _ => ?_)
    cases x with
    | str s => rfl
    | _ => rfl
  | obj ms => rfl
  | _ => rfl

def isObject : Json → Bool
  | .obj _ => true
  | _ => false

theorem isObject_sortKeys (j : Json) : isObject j.sortKeys = isObject j := by
  cases j with
  | arr xs => rfl
  | obj ms => rfl
  | _ => rfl

theorem patternTexts_obj (ms : List (String × Json)) :
    patternTexts (.obj ms) = .ok (ms.map Prod.fst) := by
  show (ms.map fun m => Json.str m.1).mapM patternText = _
  induction ms with
  | nil => rfl
  | cons m ms ih =>
    rw [List.map_cons, List.mapM_cons, ih]
    rfl

theorem patternTexts_sortKeys (h : isObject j = false) :
    patternTexts j.sortKeys = patternTexts j := by
  cases j with
  | arr xs =>
    rw [Json.sortKeys, Json.sortElems_eq_map]
    show (xs.map Json.sortKeys).mapM patternText = xs.mapM patternText
    rw [List.mapM_map]
    exact congrArg (fun f => xs.mapM f) (funext patternText_sortKeys)
  | obj ms => cases h
  | _ => rfl

theorem patternTexts_alike (h : j.sortKeys = k.sortKeys) :
    patternTexts j = patternTexts k ∨
      isObject j = true ∧ ∃ l m, patternTexts j = .ok l ∧ patternTexts k = .ok m ∧ l.Perm m := by
  by_cases hj : isObject j = true
  · have hk : isObject k = true := by rw [← isObject_sortKeys k, ← h, isObject_sortKeys j, hj]
    cases j with
    | obj ms =>
      cases k with
      | obj ns =>
        exact Or.inr ⟨rfl, _, _, patternTexts_obj ms, patternTexts_obj ns,
          Json.perm_keys_of_sortKeys_eq h⟩
      | _ => cases hk
    | _ => cases hj
  · have hk : ¬isObject k = true := by
      rw [← isObject_sortKeys k, ← h, isObject_sortKeys j]
      exact hj
    rw [Bool.not_eq_true] at hj hk
    exact Or.inl (by rw [← patternTexts_sortKeys hj, h, patternTexts_sortKeys hk])

end Reading

def Finding.counts (f : Finding) : CheckStatus × Int × Int × Int :=
  (f.status, f.totalEndpoints, f.compliantEndpoints, f.nonCompliantEndpoints)

def findingOf (r : Except Raised Outcome) : Except Raised Finding := r.map Outcome.toFinding

def countsOf (r : Except Raised Outcome) : Except Raised (CheckStatus × Int × Int × Int) :=
  r.map fun o => o.counts

theorem countsOf_congr {r s : Except Raised Outcome} (h : findingOf r = findingOf s) :
    countsOf r = countsOf s := by
  cases r with
  | error e =>
    cases s with
    | error f => exact congrArg (Except.map Finding.counts) h
    | ok p => cases h
  | ok o =>
    cases s with
    | error f => cases h
    | ok p => exact congrArg (Except.map Finding.counts) h

section Executors

variable {py : Python} {now : Int} {db : Database} {scope : ScopeFilter} {d e : JsonDict}

theorem agentOnline_alike (h : d.toJson.sortKeys = e.toJson.sortKeys) :
    agentOnline py now db d scope = agentOnline py now db e scope := by
  unfold agentOnline
  rw [JsonDict.read_getD_eq number_sortKeys h]

theorem agentVersion_alike (h : d.toJson.sortKeys = e.toJson.sortKeys) :
    agentVersion py now db d scope = agentVersion py now db e scope := by
  unfold agentVersion
  dsimp only
  rw [JsonDict.read_getD_eq truthy_sortKeys h, JsonDict.read_getD_eq versionText_sortKeys h]

theorem appVersion_alike (h : d.toJson.sortKeys = e.toJson.sortKeys) :
    appVersion py now db d scope = appVersion py now db e scope := by
  unfold appVersion
  rw [JsonDict.read_getD_eq number_sortKeys h]

theorem classificationCoverage_alike (h : d.toJson.sortKeys = e.toJson.sortKeys) :
    classificationCoverage py now db d scope = classificationCoverage py now db e scope := by
  unfold classificationCoverage
  rw [JsonDict.read_getD_eq number_sortKeys h]

theorem deltaDetection_alike (h : d.toJson.sortKeys = e.toJson.sortKeys) :
    deltaDetection py now db d scope = deltaDetection py now db e scope := by
  unfold deltaDetection
  rw [JsonDict.read_getD_eq number_sortKeys h]

theorem syncFreshness_alike (h : d.toJson.sortKeys = e.toJson.sortKeys) :
    syncFreshness py now db d scope = syncFreshness py now db e scope := by
  unfold syncFreshness
  rw [JsonDict.read_getD_eq number_sortKeys h]

theorem customAppPresence_alike (h : d.toJson.sortKeys = e.toJson.sortKeys) :
    customAppPresence py now db d scope = customAppPresence py now db e scope := by
  unfold customAppPresence
  dsimp only
  rw [JsonDict.read_getD_eq truthy_sortKeys h "app_pattern",
    JsonDict.read_getD_eq truthy_sortKeys h "must_exist",
    JsonDict.read_getD_eq patternText_sortKeys h]

theorem eolSoftware_alike (h : d.toJson.sortKeys = e.toJson.sortKeys) :
    eolSoftware py now db d scope = eolSoftware py now db e scope := by
  unfold eolSoftware
  dsimp only
  rw [JsonDict.read_getD_eq truthy_sortKeys h "flag_security_only",
    JsonDict.read_getD_eq mongoNumber_sortKeys h,
    JsonDict.read_getD_eq truthy_sortKeys h "exclude_products",
    JsonDict.read_getD_eq ninTexts_sortKeys h]

theorem unclassifiedApps_alike {a b : Json} (h : number a = number b) (classified : List String) :
    unclassifiedApps py classified a = unclassifiedApps py classified b := by
  funext agent
  unfold unclassifiedApps
  rw [h]

/-- The summary of the evidence has the parameter as it is written. -/
theorem unclassifiedThreshold_alike (h : d.toJson.sortKeys = e.toJson.sortKeys) :
    findingOf (unclassifiedThreshold py now db d scope) =
      findingOf (unclassifiedThreshold py now db e scope) := by
  unfold unclassifiedThreshold
  dsimp only
  rw [unclassifiedApps_alike (JsonDict.read_getD_eq number_sortKeys h _ _)]
  by_cases htotal : (agentsIn db scope).length = 0
  · rw [if_pos htotal, if_pos htotal]
  · rw [if_neg htotal, if_neg htotal]
    cases (agentsIn db scope).mapM (unclassifiedApps py _ (e.getD "max_unclassified_percent"
        (.int 10))) with
    | error raised => rfl
    | ok found => rfl

theorem agentCount_missingApps {l m : List String} (h : l.Perm m) (agents : List AgentDoc) :
    agentCount (agents.flatMap (missingApps py l)) =
      agentCount (agents.flatMap (missingApps py m)) := by
  have hperm : (agents.flatMap (missingApps py l)).Perm (agents.flatMap (missingApps py m)) :=
    List.Perm.flatMap_left _ fun agent _ => (h.filter _).map _
  exact (hperm.map ComplianceViolation.agentId).dedup.length_eq

theorem requiredApp_alike (h : d.toJson.sortKeys = e.toJson.sortKeys) :
    countsOf (requiredApp py now db d scope) = countsOf (requiredApp py now db e scope) ∧
      (isObject (d.getD "required_apps" (.arr [])) = false →
        requiredApp py now db d scope = requiredApp py now db e scope) := by
  have hgiven : (d.getD "required_apps" (.arr [])).sortKeys =
      (e.getD "required_apps" (.arr [])).sortKeys := by
    have hget := JsonDict.map_get_of_sortKeys_eq h "required_apps"
    unfold JsonDict.getD
    cases hd : d.get "required_apps" with
    | none =>
      rw [hd, Option.map_none] at hget
      rw [Option.map_eq_none_iff.mp hget.symm]
    | some j =>
      rw [hd, Option.map_some] at hget
      obtain ⟨k, hk, hsame⟩ := Option.map_eq_some_iff.mp hget.symm
      rw [hk]
      exact hsame.symm
  have htruthy := JsonDict.read_getD_eq truthy_sortKeys h "required_apps" (.arr [])
  rcases patternTexts_alike hgiven with htexts | ⟨hobject, l, m, hl, hm, hperm⟩
  · have hsame : requiredApp py now db d scope = requiredApp py now db e scope := by
      unfold requiredApp
      dsimp only
      rw [htruthy, htexts]
    exact ⟨congrArg countsOf hsame, fun _ => hsame⟩
  · refine ⟨?_, fun hnot => by rw [hobject] at hnot; cases hnot⟩
    unfold requiredApp
    dsimp only
    rw [htruthy, hl, hm]
    by_cases hnone : (!truthy (e.getD "required_apps" (.arr []))) = true
    · rw [if_pos hnone, if_pos hnone]
    · rw [if_neg hnone, if_neg hnone]
      by_cases htotal : (agentsIn db scope).length = 0
      · rw [if_pos htotal, if_pos htotal]
      · rw [if_neg htotal, if_neg htotal]
        let total : Int := (agentsIn db scope).length
        exact congrArg (fun n : Nat => Except.ok (passedIfNone n, total, total - n, (n : Int)))
          (agentCount_missingApps hperm (agentsIn db scope))

theorem executor_alike {checkType : String} {executor : Executor}
    (hexecutor : getExecutor checkType = some executor)
    (h : d.toJson.sortKeys = e.toJson.sortKeys) :
    countsOf (executor py now db d scope) = countsOf (executor py now db e scope) ∧
      ((checkType = "required_app_check" →
          isObject (d.getD "required_apps" (.arr [])) = false) →
        findingOf (executor py now db d scope) = findingOf (executor py now db e scope)) := by
  have hsame : ∀ {r s : Except Raised Outcome} {p : Prop}, findingOf r = findingOf s →
      countsOf r = countsOf s ∧ (p → findingOf r = findingOf s) :=
    fun heq => ⟨countsOf_congr heq, fun _ => heq⟩
  obtain ⟨before, after, hregistry, -⟩ := List.lookup_eq_some_iff.mp hexecutor
  have hmem : (checkType, executor) ∈ registry :=
    hregistry ▸ List.mem_append_right before List.mem_cons_self
  simp only [registry, List.mem_cons, List.not_mem_nil, or_false, Prod.mk.injEq] at hmem
  rcases hmem with ⟨rfl, rfl⟩ | ⟨rfl, rfl⟩ | ⟨rfl, rfl⟩ | ⟨rfl, rfl⟩ | ⟨rfl, rfl⟩ | ⟨rfl, rfl⟩ |
    ⟨rfl, rfl⟩ | ⟨rfl, rfl⟩ | ⟨rfl, rfl⟩ | ⟨rfl, rfl⟩ | ⟨rfl, rfl⟩
  · exact hsame rfl
  · obtain ⟨hcounts, hfound⟩ := @requiredApp_alike py now db scope d e h
    exact ⟨hcounts, fun hobject => congrArg findingOf (hfound (hobject rfl))⟩
  · exact hsame (congrArg findingOf (agentVersion_alike h))
  · exact hsame (congrArg findingOf (agentOnline_alike h))
  · exact hsame (congrArg findingOf (appVersion_alike h))
  · exact hsame (congrArg findingOf (syncFreshness_alike h))
  · exact hsame (congrArg findingOf (classificationCoverage_alike h))
  · exact hsame (unclassifiedThreshold_alike h)
  · exact hsame (congrArg findingOf (deltaDetection_alike h))
  · exact hsame (congrArg findingOf (customAppPresence_alike h))
  · exact hsame (congrArg findingOf (eolSoftware_alike h))

end Executors

section Keys

variable {digest : String → String} {a b : ResolvedControl}
variable {l m : List String}

theorem map_str_injective (h : l.map Json.str = m.map Json.str) : l = m :=
  List.map_injective_iff.mpr (fun _ _ heq => Json.str.inj heq) h

theorem sortKeys_strings (l : List String) :
    (Json.arr (l.map Json.str)).sortKeys = .arr (l.map Json.str) := by
  rw [Json.sortKeys, Json.sortElems_eq_map, List.map_map]
  rfl

theorem sortKeys_tagCondition (tags : List String) :
    (ScopeFilter.tagCondition tags).sortKeys = ScopeFilter.tagCondition tags :=
  congrArg (fun x => Json.obj [("tags", .obj [("$in", x)])]) (sortKeys_strings tags)

theorem sortKeys_groupCondition (groups : List String) :
    (ScopeFilter.groupCondition groups).sortKeys = ScopeFilter.groupCondition groups :=
  congrArg (fun x => Json.obj [("group_name", .obj [("$in", x)])]) (sortKeys_strings groups)

/-- The names of a query document are sorted. -/
theorem sortKeys_scope (s : ScopeFilter) : s.toJson.sortKeys = s.toJson := by
  cases s with
  | all => rfl
  | tagsIn tags => exact sortKeys_tagCondition tags
  | groupNameIn groups => exact sortKeys_groupCondition groups
  | both tags groups =>
    show Json.obj [("$and", .arr [(ScopeFilter.tagCondition tags).sortKeys,
      (ScopeFilter.groupCondition groups).sortKeys])] = _
    rw [sortKeys_tagCondition, sortKeys_groupCondition]
    rfl

theorem tagCondition_inj
    (h : ScopeFilter.tagCondition l = ScopeFilter.tagCondition m) : l = m := by
  simp only [ScopeFilter.tagCondition, Json.obj.injEq, List.cons.injEq, Prod.mk.injEq,
    Json.arr.injEq, true_and, and_true] at h
  exact map_str_injective h

theorem groupCondition_inj
    (h : ScopeFilter.groupCondition l = ScopeFilter.groupCondition m) : l = m := by
  simp only [ScopeFilter.groupCondition, Json.obj.injEq, List.cons.injEq, Prod.mk.injEq,
    Json.arr.injEq, true_and, and_true] at h
  exact map_str_injective h

theorem scope_eq_of_sortKeys_eq {s t : ScopeFilter} (h : s.toJson.sortKeys = t.toJson.sortKeys) :
    s = t := by
  rw [sortKeys_scope, sortKeys_scope] at h
  cases s with
  | all =>
    cases t with
    | all => rfl
    | _ => cases h
  | tagsIn l =>
    cases t with
    | tagsIn m => rw [tagCondition_inj h]
    | groupNameIn m => exact absurd h (by simp [ScopeFilter.toJson, ScopeFilter.tagCondition,
        ScopeFilter.groupCondition])
    | both m g => exact absurd h (by simp [ScopeFilter.toJson, ScopeFilter.tagCondition])
    | all => cases h
  | groupNameIn l =>
    cases t with
    | groupNameIn m => rw [groupCondition_inj h]
    | tagsIn m => exact absurd h (by simp [ScopeFilter.toJson, ScopeFilter.tagCondition,
        ScopeFilter.groupCondition])
    | both m g => exact absurd h (by simp [ScopeFilter.toJson, ScopeFilter.groupCondition])
    | all => cases h
  | both l g =>
    cases t with
    | both m h' =>
      simp only [ScopeFilter.toJson, Json.obj.injEq, List.cons.injEq, Prod.mk.injEq,
        Json.arr.injEq, true_and, and_true] at h
      rw [tagCondition_inj h.1, groupCondition_inj h.2]
    | tagsIn m => exact absurd h (by simp [ScopeFilter.toJson, ScopeFilter.tagCondition])
    | groupNameIn m => exact absurd h (by simp [ScopeFilter.toJson, ScopeFilter.groupCondition])
    | all => cases h

theorem alike_of_cacheKey_eq (hdigest : Function.Injective digest)
    (h : a.cacheKey digest = b.cacheKey digest) :
    a.checkType = b.checkType ∧ a.parameters.toJson.sortKeys = b.parameters.toJson.sortKeys ∧
      a.scope = b.scope := by
  let keyed : ResolvedControl → JsonDict := fun c =>
    ⟨[("t", .str c.checkType), ("p", c.parameters.toJson), ("s", c.scope.toJson)],
      show ["t", "p", "s"].Nodup by decide⟩
  have hkey : (keyed a).toJson.sortKeys = (keyed b).toJson.sortKeys :=
    encode_injective (hdigest h)
  have hget := JsonDict.map_get_of_sortKeys_eq hkey
  refine ⟨?_, Option.some.inj (hget "p"), scope_eq_of_sortKeys_eq (Option.some.inj (hget "s"))⟩
  exact Json.str.inj (Option.some.inj (hget "t"))

end Keys

def RequiresObject (c : ResolvedControl) : Prop :=
  c.checkType = "required_app_check" ∧
    isObject (c.parameters.getD "required_apps" (.arr [])) = true

/-- A result is that of a control, as it is found when the control is executed alone. -/
structure ResultOf (py : Python) (now : Int) (db : Database) (c : ResolvedControl)
    (r : CheckResult) : Prop where
  controlId : r.controlId = c.controlId
  frameworkId : r.frameworkId = c.frameworkId
  alone : ∃ o, executeCheck py now db c = some o ∧ r.counts = o.counts ∧
    (¬RequiresObject c → r.violations = o.violations)

section Results

variable {digest : String → String} {py : Python} {now : Int} {db : Database}
  {a b : ResolvedControl} {r : CheckResult}

def shown : Except Raised Outcome → Finding
  | .ok o => o.toFinding
  | .error _ => ⟨.error, 0, 0, 0, []⟩

theorem shown_congr {x y : Except Raised Outcome} (h : findingOf x = findingOf y) :
    shown x = shown y := by
  cases x with
  | error e =>
    cases y with
    | error f => rfl
    | ok p => cases h
  | ok o =>
    cases y with
    | error f => cases h
    | ok p => exact Except.ok.inj h

theorem counts_shown_congr {x y : Except Raised Outcome} (h : countsOf x = countsOf y) :
    (shown x).counts = (shown y).counts := by
  cases x with
  | error e =>
    cases y with
    | error f => rfl
    | ok p => cases h
  | ok o =>
    cases y with
    | error f => cases h
    | ok p => exact Except.ok.inj h

theorem executeCheck_eq {executor : Executor} (h : getExecutor a.checkType = some executor) :
    ∃ o, executeCheck py now db a = some (a.result now o) ∧
      o.toFinding = shown (executor py now db a.parameters a.scope) := by
  unfold executeCheck
  rw [h, Option.map_some]
  cases executor py now db a.parameters a.scope with
  | ok o => exact ⟨o, rfl, rfl⟩
  | error e => exact ⟨errorOutcome py e, rfl, rfl⟩

theorem resultOf_of_primary (hdigest : Function.Injective digest)
    (hkey : a.cacheKey digest = b.cacheKey digest)
    (hexecutor : (getExecutor a.checkType).isSome = true)
    (h : ResultFrom (executeCheck py now db) a b r) : ResultOf py now db b r := by
  obtain ⟨htype, hparameters, hscope⟩ := alike_of_cacheKey_eq hdigest hkey
  obtain ⟨executor, hexecutor⟩ := Option.isSome_iff_exists.mp hexecutor
  obtain ⟨o, ho, hshown⟩ := @executeCheck_eq py now db a executor hexecutor
  obtain ⟨p, hp, hshown'⟩ := @executeCheck_eq py now db b executor (htype ▸ hexecutor)
  obtain ⟨hcounts, hfound⟩ := @executor_alike py now db a.scope a.parameters b.parameters
    a.checkType executor hexecutor hparameters
  obtain ⟨source, hsource, hfinding⟩ := h.found
  have hr : r.toFinding = o.toFinding := by
    rw [hfinding, ← Option.some.inj (ho.symm.trans hsource)]
    rfl
  refine ⟨h.controlId, h.frameworkId, _, hp, ?_, fun hobject => ?_⟩
  · show r.toFinding.counts = p.toFinding.counts
    rw [hr, hshown, hshown', ← hscope]
    exact counts_shown_congr hcounts
  · have hnot : a.checkType = "required_app_check" →
        isObject (a.parameters.getD "required_apps" (.arr [])) = false := by
      intro hrequired
      rw [JsonDict.read_getD_eq isObject_sortKeys hparameters, ← Bool.not_eq_true]
      exact fun hisObject => hobject ⟨htype ▸ hrequired, hisObject⟩
    show r.toFinding.violations = p.toFinding.violations
    rw [hr, hshown, hshown', ← hscope, shown_congr (hfound hnot)]

end Results

/-- A run has one result for each active control whose check type has an executor: that of the
control executed alone, but for the order of the violations where an object names the
required apps. -/
theorem run_results (digest : String → String) (hdigest : Function.Injective digest) (py : Python)
    (now : Int) (db : Database) (registry : Registry) (settings : Settings)
    (frameworkId : Option String) :
    ∃ controls, controls.Perm (executable (resolveActiveControls registry settings frameworkId)) ∧
      List.Forall₂ (ResultOf py now db) controls
        (runComplianceChecks digest py now db registry settings frameworkId) := by
  obtain ⟨controls, hperm, hresults⟩ := @runChecks_results digest _
    (resolveActiveControls registry settings frameworkId) (executes_executeCheck py now db)
  refine ⟨controls, hperm, ?_⟩
  have hmem : ∀ c ∈ controls,
    c ∈ executable (resolveActiveControls registry settings frameworkId) :=
    fun c hc => hperm.mem_iff.mp hc
  refine ((List.forall₂_and_left _ _).mpr ⟨hmem, hresults⟩).imp ?_
  intro c r ⟨hc, hr⟩
  obtain ⟨hprimary, hkey⟩ := @cacheKey_primaryOf digest _ c hc
  exact resultOf_of_primary hdigest hkey (List.mem_filter.mp hprimary).2 hr

def requireControl (id : String) (parameters : JsonDict) : ControlDefinition where
  id := id
  frameworkId := "soc2"
  name := "Required apps"
  category := "Access"
  severity := .high
  checkType := "required_app_check"
  parameters := parameters

def requireFirst : ControlDefinition :=
  requireControl "custom-1"
    ⟨[("required_apps", .obj [("Edge", .null), ("Zoom", .null)])], by decide⟩

def requireSecond : ControlDefinition :=
  requireControl "custom-2"
    ⟨[("required_apps", .obj [("Zoom", .null), ("Edge", .null)])], by decide⟩

def requiringSettings : Settings where
  frameworkConfigs := ⟨[⟨"soc2", true⟩], by decide⟩
  controlConfigs := ⟨[], by decide⟩
  customControls := ⟨[requireFirst, requireSecond], by decide⟩

def firstControl : ResolvedControl := resolve "soc2" requireFirst none

def secondControl : ResolvedControl := resolve "soc2" requireSecond none

theorem requiring_controls :
    resolveActiveControls [("soc2", [])] requiringSettings none =
      [firstControl, secondControl] := rfl

/-- Both controls have one result each. -/
theorem requiring_results :
    ∃ controls, controls.Perm (executable (resolveActiveControls [("soc2", [])]
        requiringSettings none)) ∧
      List.Forall₂ (ResultOf plainPython 0 bareDatabase) controls
        (runComplianceChecks id plainPython 0 bareDatabase [("soc2", [])] requiringSettings none) :=
  run_results id Function.injective_id plainPython 0 bareDatabase [("soc2", [])] requiringSettings
    none

theorem runChecks_pair {digest : String → String} {py : Python} {now : Int} {db : Database}
    {a b : ResolvedControl} {r : CheckResult} (hkey : b.cacheKey digest = a.cacheKey digest)
    (hexecutable : executable [a, b] = [a, b]) (hr : executeCheck py now db a = some r) :
    runChecks digest (executeCheck py now db) [a, b] = [r, remapResult r b] := by
  have hgroups : groupsBy (ResolvedControl.cacheKey digest) [a, b] =
      [(a.cacheKey digest, [a, b])] := by
    unfold groupsBy firstKeys
    simp [hkey]
  rw [runChecks, hexecutable, hgroups, List.flatMap_singleton, runGroup, hr]
  rfl

def violatedApps (r : CheckResult) : List (Option String) :=
  r.violations.map ComplianceViolation.appName

def SameResult (py : Python) (now : Int) (db : Database) (c : ResolvedControl)
    (r : CheckResult) : Prop :=
  r.controlId = c.controlId ∧ r.frameworkId = c.frameworkId ∧
    ∃ o, executeCheck py now db c = some o ∧ r.toFinding = o.toFinding

/-- The second control gets the violations of the first, in their order. -/
theorem shared_violations_differ :
    ¬∀ (digest : String → String), Function.Injective digest → ∀ (py : Python) (now : Int)
      (db : Database) (registry : Registry) (settings : Settings) (frameworkId : Option String),
      ∃ controls, controls.Perm
          (executable (resolveActiveControls registry settings frameworkId)) ∧
        List.Forall₂ (SameResult py now db) controls
          (runComplianceChecks digest py now db registry settings frameworkId) := by
  intro hall
  obtain ⟨controls, hperm, hresults⟩ := hall id Function.injective_id plainPython 0 bareDatabase
    [("soc2", [])] requiringSettings none
  rw [requiring_controls] at hperm
  have hfirst : (executeCheck plainPython 0 bareDatabase firstControl).map violatedApps =
      some [some "Edge", some "Zoom"] := by decide +kernel
  have hsecond : (executeCheck plainPython 0 bareDatabase secondControl).map violatedApps =
      some [some "Zoom", some "Edge"] := by decide +kernel
  obtain ⟨r, hr, happs⟩ := Option.map_eq_some_iff.mp hfirst
  have hrun : runComplianceChecks id plainPython 0 bareDatabase [("soc2", [])] requiringSettings
      none = [r, remapResult r secondControl] := runChecks_pair rfl rfl hr
  rw [hrun, List.forall₂_cons_right_iff] at hresults
  obtain ⟨c₁, rest, -, hrest, rfl⟩ := hresults
  obtain ⟨c, nothing, ⟨hid, -, o, ho, hsame⟩, -, rfl⟩ := List.forall₂_cons_right_iff.mp hrest
  have hne : secondControl.controlId ≠ firstControl.controlId := by decide
  have hmem : c ∈ [firstControl, secondControl] :=
    (hperm.mem_iff).mp (List.mem_cons_of_mem _ List.mem_cons_self)
  have hc : c = secondControl := by
    rcases List.mem_cons.mp hmem with rfl | hlater
    · exact absurd hid hne
    · exact List.mem_singleton.mp hlater
  rw [hc] at ho
  rw [ho, Option.map_some] at hsecond
  have hviolations : violatedApps r = violatedApps o :=
    congrArg (fun f : Finding => f.violations.map ComplianceViolation.appName) hsame
  rw [happs, Option.some.inj hsecond] at hviolations
  exact absurd hviolations (by decide)

end Sentora.Compliance
