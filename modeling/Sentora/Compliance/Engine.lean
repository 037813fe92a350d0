import Sentora.Compliance.Checks

/-!
# The compliance engine

`domains/compliance/engine.py`: the active controls, and a run that executes one control for
all that have its key.  The checks of a run have one time.

Which results a run has: one for each active control with an executor, with what the check of
the first control with its key finds.
-/

namespace Sentora.Compliance

open Lib

/-- The frameworks and their controls. -/
abbrev Registry := List (String × List ControlDefinition)

def getFrameworkControls (registry : Registry) (frameworkId : String) : List ControlDefinition :=
  (registry.lookup frameworkId).getD []

def getAllFrameworkIds (registry : Registry) : List String := registry.map Prod.fst

def getControl (registry : Registry) (controlId : String) : Option ControlDefinition :=
  (registry.flatMap Prod.snd).reverse.find? fun defn => defn.id == controlId

structure FrameworkConfig where
  frameworkId : String
  enabled : Bool
deriving DecidableEq

def ControlConfiguration.key (c : ControlConfiguration) : String × String :=
  (c.controlId, c.frameworkId)

structure Settings where
  frameworkConfigs : Collection FrameworkConfig.frameworkId
  controlConfigs : Collection ControlConfiguration.key
  customControls : Collection ControlDefinition.id

structure ResolvedControl where
  controlId : String
  frameworkId : String
  name : String
  category : String
  severity : ControlSeverity
  checkType : String
  parameters : JsonDict
  scopeTags : List String
  scopeGroups : List String

/-- `framework_configs.get(fw_id, False)`. -/
def frameworkEnabled (settings : Settings) (frameworkId : String) : Bool :=
  ((settings.frameworkConfigs.get frameworkId).map FrameworkConfig.enabled).getD false

/-- The entry of `config_map`. -/
def configOf (configs : List ControlConfiguration) (frameworkId controlId : String) :
    Option ControlConfiguration :=
  configs.reverse.find? fun c =>
    c.frameworkId ++ ":" ++ c.controlId == frameworkId ++ ":" ++ controlId

def resolve (frameworkId : String) (defn : ControlDefinition)
    (config : Option ControlConfiguration) : ResolvedControl where
  controlId := defn.id
  frameworkId := frameworkId
  name := defn.name
  category := defn.category
  severity := (config.bind ControlConfiguration.severityOverride).getD defn.severity
  checkType := defn.checkType
  parameters :=
    match config with
    | some c => defn.parameters.update c.parametersOverride
    | none => defn.parameters
  scopeTags := (config.bind ControlConfiguration.scopeTagsOverride).getD defn.scopeTags
  scopeGroups := (config.bind ControlConfiguration.scopeGroupsOverride).getD defn.scopeGroups

def resolveControls (configs : List ControlConfiguration) (frameworkId : String)
    (controls : List ControlDefinition) : List ResolvedControl :=
  controls.filterMap fun defn =>
    let config := configOf configs frameworkId defn.id
    if config.all ControlConfiguration.enabled then some (resolve frameworkId defn config) else none

def listCustomControls (settings : Settings) (frameworkId : String) : List ControlDefinition :=
  settings.customControls.docs.filter fun custom => custom.frameworkId == frameworkId

/-- `framework_id` of a request, of which the empty text is none. -/
def wanted (frameworkId : Option String) : Option String := frameworkId.filter (· ≠ "")

def resolveActiveControls (registry : Registry) (settings : Settings)
    (frameworkId : Option String) : List ResolvedControl :=
  let frameworkIds := ((wanted frameworkId).map fun id => [id]).getD (getAllFrameworkIds registry)
  let configs := settings.controlConfigs.docs.filter fun c =>
    (wanted frameworkId).all (c.frameworkId == ·)
  (frameworkIds.filter (frameworkEnabled settings)).flatMap fun id =>
    resolveControls configs id (getFrameworkControls registry id) ++
      resolveControls configs id (listCustomControls settings id)

def cacheKey (digest : String → String) (checkType : String) (parameters : JsonDict)
    (scope : ScopeFilter) : String :=
  digest (Json.obj [("t", .str checkType), ("p", parameters.toJson),
    ("s", scope.toJson)]).sortKeys.encode

namespace ResolvedControl

def scope (c : ResolvedControl) : ScopeFilter := buildScopeFilter c.scopeTags c.scopeGroups

def cacheKey (digest : String → String) (c : ResolvedControl) : String :=
  Compliance.cacheKey digest c.checkType c.parameters c.scope

def result (c : ResolvedControl) (now : Int) (o : Outcome) : CheckResult where
  toOutcome := o
  controlId := c.controlId
  frameworkId := c.frameworkId
  severity := c.severity
  category := c.category
  controlName := c.name
  checkedAt := now

end ResolvedControl

def errorOutcome (py : Python) (e : Raised) : Outcome where
  status := .error
  totalEndpoints := 0
  compliantEndpoints := 0
  nonCompliantEndpoints := 0
  violations := []
  evidenceSummary := "Check execution error: " ++ py.message e

def executeCheck (py : Python) (now : Int) (db : Database) (c : ResolvedControl) :
    Option CheckResult :=
  (getExecutor c.checkType).map fun executor =>
    match executor py now db c.parameters c.scope with
    | .ok o => c.result now o
    | .error e => c.result now (errorOutcome py e)

def remapResult (source : CheckResult) (c : ResolvedControl) : CheckResult :=
  { source with
    controlId := c.controlId
    frameworkId := c.frameworkId
    severity := c.severity
    category := c.category
    controlName := c.name }

def runGroup (execute : ResolvedControl → Option CheckResult) :
    List ResolvedControl → List CheckResult
  | [] => []
  | primary :: rest =>
    match execute primary with
    | some r => r :: rest.map (remapResult r)
    | none => []

def executable (controls : List ResolvedControl) : List ResolvedControl :=
  controls.filter fun c => (getExecutor c.checkType).isSome

def runChecks (digest : String → String) (execute : ResolvedControl → Option CheckResult)
    (controls : List ResolvedControl) : List CheckResult :=
  (groupsBy (ResolvedControl.cacheKey digest) (executable controls)).flatMap fun g =>
    runGroup execute g.2

def runComplianceChecks (digest : String → String) (py : Python) (now : Int) (db : Database)
    (registry : Registry) (settings : Settings) (frameworkId : Option String) :
    List CheckResult :=
  runChecks digest (executeCheck py now db) (resolveActiveControls registry settings frameworkId)

def primaryOf (digest : String → String) (controls : List ResolvedControl) (c : ResolvedControl) :
    ResolvedControl :=
  ((executable controls).find? fun d => d.cacheKey digest = c.cacheKey digest).getD c

/-- A result of a control has what the check of another one finds. -/
structure ResultFrom (execute : ResolvedControl → Option CheckResult)
    (primary c : ResolvedControl) (r : CheckResult) : Prop where
  controlId : r.controlId = c.controlId
  frameworkId : r.frameworkId = c.frameworkId
  found : ∃ o, execute primary = some o ∧ r.toFinding = o.toFinding

/-- A check gives a result of its control, if its type has an executor. -/
structure Executes (execute : ResolvedControl → Option CheckResult) : Prop where
  total : ∀ c, (getExecutor c.checkType).isSome = true → (execute c).isSome = true
  own : ∀ c r, execute c = some r → r.controlId = c.controlId ∧ r.frameworkId = c.frameworkId

theorem executes_executeCheck (py : Python) (now : Int) (db : Database) :
    Executes (executeCheck py now db) := by
  constructor
  · intro c h
    rw [executeCheck, Option.isSome_map]
    exact h
  · intro c r h
    obtain ⟨executor, -, rfl⟩ := Option.map_eq_some_iff.mp h
    cases executor py now db c.parameters c.scope with
    | ok o => exact ⟨rfl, rfl⟩
    | error e => exact ⟨rfl, rfl⟩

section Related

variable {α β : Type} {R : α → β → Prop} {l : List α} {m : List β} {a : α} {b : β}

theorem exists_of_mem_left (h : List.Forall₂ R l m) (ha : a ∈ l) : ∃ b ∈ m, R a b := by
  induction h with
  | nil => cases ha
  | cons hab hrest ih =>
    rcases List.mem_cons.mp ha with rfl | hlater
    · exact ⟨_, List.mem_cons_self, hab⟩
    · obtain ⟨b, hb, hr⟩ := ih hlater
      exact ⟨b, List.mem_cons_of_mem _ hb, hr⟩

theorem exists_of_mem_right (h : List.Forall₂ R l m) (hb : b ∈ m) : ∃ a ∈ l, R a b :=
  exists_of_mem_left (R := fun b a => R a b) h.flip hb

end Related

section Results

variable {digest : String → String} {execute : ResolvedControl → Option CheckResult}
  {controls group : List ResolvedControl} {primary c : ResolvedControl} {r : CheckResult}

theorem cacheKey_primaryOf (hc : c ∈ executable controls) :
    primaryOf digest controls c ∈ executable controls ∧
      (primaryOf digest controls c).cacheKey digest = c.cacheKey digest := by
  have hsome : ((executable controls).find? fun d =>
      d.cacheKey digest = c.cacheKey digest).isSome = true := by
    rw [List.find?_isSome]
    exact ⟨c, hc, decide_eq_true rfl⟩
  obtain ⟨d, hd⟩ := Option.isSome_iff_exists.mp hsome
  have hkey := List.find?_some hd
  rw [primaryOf, hd, Option.getD_some]
  exact ⟨List.mem_of_find?_eq_some hd, of_decide_eq_true hkey⟩

theorem runGroup_results (h : Executes execute)
    (hexecutor : (getExecutor primary.checkType).isSome = true) :
    List.Forall₂ (ResultFrom execute primary) (primary :: group)
      (runGroup execute (primary :: group)) := by
  obtain ⟨o, ho⟩ := Option.isSome_iff_exists.mp (h.total primary hexecutor)
  obtain ⟨hcontrol, hframework⟩ := h.own primary o ho
  rw [runGroup, ho]
  refine .cons ⟨hcontrol, hframework, o, ho, rfl⟩ ?_
  rw [List.forall₂_map_right_iff, List.forall₂_same]
  intro c _
  exact ⟨rfl, rfl, o, ho, rfl⟩

theorem runChecks_results (h : Executes execute) :
    ∃ cs, cs.Perm (executable controls) ∧
      List.Forall₂ (fun c => ResultFrom execute (primaryOf digest controls c) c) cs
        (runChecks digest execute controls) := by
  refine ⟨_, @perm_flatMap_groupsBy _ _ _ (ResolvedControl.cacheKey digest) (executable controls),
    ?_⟩
  have hgroups : ∀ g ∈ groupsBy (ResolvedControl.cacheKey digest) (executable controls),
      List.Forall₂ (fun c => ResultFrom execute (primaryOf digest controls c) c) g.2
        (runGroup execute g.2) := by
    intro g hg
    obtain ⟨primary, group, hsplit⟩ := List.exists_cons_of_ne_nil (ne_nil_of_mem_groupsBy hg)
    have hitems := (mem_groupsBy.mp hg).2
    have hfirst : (executable controls).find? (fun d => d.cacheKey digest = g.1) =
      some primary := by
      rw [← List.head?_filter, ← hitems, hsplit, List.head?_cons]
    have hexecutor := (List.mem_filter.mp (List.mem_of_find?_eq_some hfirst)).2
    have hprimary : ∀ c ∈ g.2, primaryOf digest controls c = primary := by
      intro c hc
      rw [primaryOf, key_of_mem_group hg hc, hfirst]
      rfl
    rw [hsplit] at hprimary ⊢
    refine ((List.forall₂_and_left _ _).mpr ⟨hprimary, runGroup_results h hexecutor⟩).imp ?_
    intro c r ⟨hsame, hresult⟩
    rw [hsame]
    exact hresult
  rw [runChecks]
  generalize groupsBy (ResolvedControl.cacheKey digest) (executable controls) = groups at hgroups
  induction groups with
  | nil => exact .nil
  | cons g rest ih =>
    rw [List.flatMap_cons, List.flatMap_cons]
    exact List.rel_append (hgroups g List.mem_cons_self)
      (ih fun g hg => hgroups g (List.mem_cons_of_mem _ hg))

theorem exists_result_iff (h : Executes execute) {controlId : String} {p : Finding → Prop} :
    (∃ r ∈ runChecks digest execute controls, r.controlId = controlId ∧ p r.toFinding) ↔
      ∃ c ∈ executable controls, c.controlId = controlId ∧
        ∃ o, execute (primaryOf digest controls c) = some o ∧ p o.toFinding := by
  obtain ⟨cs, hperm, hresults⟩ := @runChecks_results digest execute controls h
  constructor
  · intro ⟨r, hr, hid, hp⟩
    obtain ⟨c, hc, hresult⟩ := exists_of_mem_right hresults hr
    obtain ⟨o, ho, hfound⟩ := hresult.found
    exact ⟨c, hperm.mem_iff.mp hc, hresult.controlId.symm.trans hid, o, ho, hfound ▸ hp⟩
  · intro ⟨c, hc, hid, o, ho, hp⟩
    obtain ⟨r, hr, hresult⟩ := exists_of_mem_left hresults (hperm.mem_iff.mpr hc)
    obtain ⟨o', ho', hfound⟩ := hresult.found
    refine ⟨r, hr, hresult.controlId.trans hid, ?_⟩
    rw [hfound, ← Option.some.inj (ho.symm.trans ho')]
    exact hp

end Results

end Sentora.Compliance
