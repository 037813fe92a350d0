import Mathlib.Data.List.Pairwise
import Sentora.Compliance.Events

/-!
# The compliance dashboard

Whether the dashboard and the list of violations show the controls that the last run over all
frameworks evaluated, and no others.

The views are made of the latest results of all controls.  A control that is disabled keeps its
last result, and both show it.
-/

namespace Sentora.Compliance

open Lib

section Active

variable {f : Frameworks} {w : World f} {configs : List ControlConfiguration}
  {controls : List ControlDefinition} {frameworkId controlId : String} {defn : ControlDefinition}
  {c : ResolvedControl}

theorem ids_resolveControls :
    ((resolveControls configs frameworkId controls).map ResolvedControl.controlId).Sublist
      (controls.map ControlDefinition.id) := by
  induction controls with
  | nil => exact List.Sublist.slnil
  | cons defn rest ih =>
    unfold resolveControls at ih ⊢
    rw [List.filterMap_cons, List.map_cons]
    split
    · exact ih.cons _
    · rename_i resolved hresolved
      have hid : resolved.controlId = defn.id := by
        dsimp only at hresolved
        split at hresolved
        · rw [← Option.some.inj hresolved]
          rfl
        · cases hresolved
      rw [List.map_cons, hid]
      exact ih.cons_cons _

theorem mem_registry_of_getFrameworkControls {registry : Registry}
    (h : defn ∈ getFrameworkControls registry frameworkId) :
    ∃ p ∈ registry, p.1 = frameworkId ∧ defn ∈ p.2 := by
  unfold getFrameworkControls at h
  cases hlookup : registry.lookup frameworkId with
  | none =>
    rw [hlookup] at h
    cases h
  | some l =>
    rw [hlookup] at h
    obtain ⟨before, after, hsplit, -⟩ := List.lookup_eq_some_iff.mp hlookup
    exact ⟨(frameworkId, l), hsplit ▸ List.mem_append_right before List.mem_cons_self, rfl, h⟩

theorem framework_eq_of_id {p q : String × List ControlDefinition} {d e : ControlDefinition}
    (hp : p ∈ f.registry) (hq : q ∈ f.registry) (hd : d ∈ p.2) (he : e ∈ q.2) (h : d.id = e.id) :
    p = q := by
  by_contra hne
  have hids := f.distinctControls
  rw [List.map_flatMap, List.nodup_flatMap] at hids
  have : Std.Symm fun p q : String × List ControlDefinition =>
      (p.2.map ControlDefinition.id).Disjoint (q.2.map ControlDefinition.id) :=
    ⟨fun _ _ hpq => hpq.symm⟩
  exact hids.2.forall hp hq hne (List.mem_map_of_mem hd) (h ▸ List.mem_map_of_mem he)

theorem getControl_isSome {registry : Registry} (h : defn ∈ registry.flatMap Prod.snd) :
    getControl registry defn.id ≠ none := by
  unfold getControl
  rw [Ne, List.find?_eq_none]
  intro hnone
  exact hnone defn (List.mem_reverse.mpr h) (beq_self_eq_true _)

theorem nodup_builtIn : ((getFrameworkControls f.registry frameworkId).map
    ControlDefinition.id).Nodup := by
  unfold getFrameworkControls
  cases hlookup : f.registry.lookup frameworkId with
  | none => exact List.nodup_nil
  | some l =>
    obtain ⟨before, after, hsplit, -⟩ := List.lookup_eq_some_iff.mp hlookup
    have hids := f.distinctControls
    rw [List.map_flatMap, List.nodup_flatMap] at hids
    exact hids.1 _ (hsplit ▸ List.mem_append_right before List.mem_cons_self)

theorem nodup_custom : ((listCustomControls w.settings frameworkId).map
    ControlDefinition.id).Nodup :=
  w.settings.customControls.distinct.sublist (List.filter_sublist.map _)

theorem builtIn_ne_custom {other : String} {d e : ControlDefinition}
    (hd : d ∈ getFrameworkControls f.registry frameworkId)
    (he : e ∈ listCustomControls w.settings other) : d.id ≠ e.id := by
  intro h
  obtain ⟨p, hp, -, hmem⟩ := mem_registry_of_getFrameworkControls hd
  have hnone := w.custom e (List.mem_filter.mp he).1
  rw [← h] at hnone
  exact getControl_isSome (List.mem_flatMap.mpr ⟨p, hp, hmem⟩) hnone

def frameworkIds (configs : List ControlConfiguration) (w : World f) (frameworkId : String) :
    List String :=
  (resolveControls configs frameworkId (getFrameworkControls f.registry frameworkId) ++
    resolveControls configs frameworkId (listCustomControls w.settings frameworkId)).map
      ResolvedControl.controlId

theorem mem_frameworkIds (h : controlId ∈ frameworkIds configs w frameworkId) :
    (∃ d ∈ getFrameworkControls f.registry frameworkId, d.id = controlId) ∨
      ∃ d ∈ listCustomControls w.settings frameworkId, d.id = controlId := by
  unfold frameworkIds at h
  rw [List.map_append, List.mem_append] at h
  exact h.imp (fun h => List.mem_map.mp (ids_resolveControls.subset h))
    fun h => List.mem_map.mp (ids_resolveControls.subset h)

theorem nodup_frameworkIds : (frameworkIds configs w frameworkId).Nodup := by
  unfold frameworkIds
  rw [List.map_append]
  refine (nodup_builtIn.sublist ids_resolveControls).append
    (nodup_custom.sublist ids_resolveControls) ?_
  intro id hbuiltIn hcustom
  obtain ⟨d, hd, hdid⟩ := List.mem_map.mp (ids_resolveControls.subset hbuiltIn)
  obtain ⟨e, he, heid⟩ := List.mem_map.mp (ids_resolveControls.subset hcustom)
  exact builtIn_ne_custom hd he (hdid.trans heid.symm)

theorem eq_of_mem_frameworkIds {other : String} (h : controlId ∈ frameworkIds configs w frameworkId)
    (h' : controlId ∈ frameworkIds configs w other) : frameworkId = other := by
  rcases mem_frameworkIds h with ⟨d, hd, hdid⟩ | ⟨d, hd, hdid⟩
  · rcases mem_frameworkIds h' with ⟨e, he, heid⟩ | ⟨e, he, heid⟩
    · obtain ⟨p, hp, hpid, hmem⟩ := mem_registry_of_getFrameworkControls hd
      obtain ⟨q, hq, hqid, hmem'⟩ := mem_registry_of_getFrameworkControls he
      rw [← hpid, ← hqid, framework_eq_of_id hp hq hmem hmem' (hdid.trans heid.symm)]
    · exact absurd (hdid.trans heid.symm) (builtIn_ne_custom hd he)
  · rcases mem_frameworkIds h' with ⟨e, he, heid⟩ | ⟨e, he, heid⟩
    · exact absurd (heid.trans hdid.symm) (builtIn_ne_custom he hd)
    · obtain ⟨hd, hdf⟩ := List.mem_filter.mp hd
      obtain ⟨he, hef⟩ := List.mem_filter.mp he
      have hsame := w.settings.customControls.eq_of_key hd he (hdid.trans heid.symm)
      rw [← beq_iff_eq.mp hdf, ← beq_iff_eq.mp hef, hsame]

theorem nodup_activeControls :
    ((activeControls none w).map ResolvedControl.controlId).Nodup := by
  show (((getAllFrameworkIds f.registry).filter (frameworkEnabled w.settings)).flatMap _ |>.map
    ResolvedControl.controlId).Nodup
  rw [List.map_flatMap]
  refine List.nodup_flatMap.mpr ⟨fun id _ => nodup_frameworkIds, ?_⟩
  refine (f.distinctFrameworks.filter _).imp_of_mem fun _ _ hne => ?_
  intro controlId h h'
  exact hne (eq_of_mem_frameworkIds h h')

end Active

def Disabled {f : Frameworks} (w : World f) (frameworkId controlId : String) : Prop :=
  frameworkEnabled w.settings frameworkId = false ∨
    (configOf w.settings.controlConfigs.docs frameworkId controlId).all
      ControlConfiguration.enabled = false

def countStatus (controls : List ResolvedControl) (results : List CheckResult)
    (frameworkId : String) (status : CheckStatus) : Nat :=
  controls.countP fun c => c.frameworkId == frameworkId &&
    results.any fun r => r.controlId == c.controlId && r.status == status

def scoreOf (controls : List ResolvedControl) (results : List CheckResult)
    (frameworkId : String) : FrameworkScore where
  frameworkId := frameworkId
  totalControls := controls.countP fun c => c.frameworkId == frameworkId
  passed := countStatus controls results frameworkId .passed
  failed := countStatus controls results frameworkId .failed
  warning := countStatus controls results frameworkId .warning
  error := countStatus controls results frameworkId .error
  notApplicable := countStatus controls results frameworkId .notApplicable

/-- The dashboard and the violations are those of some controls with their results. -/
structure Reflects {f : Frameworks} (controls : List ResolvedControl) (results : List CheckResult)
    (w : World f) : Prop where
  shown : ∀ c ∈ controls, c.frameworkId ∈ enabledFrameworks w
  figures : (getDashboard w).frameworks =
    (enabledFrameworks w).map (scoreOf controls results)
  violations : ∀ severity, ∀ d ∈ currentViolations none severity w.results,
    ¬Disabled w d.frameworkId d.controlId

/-- Whether the list of violations has some of a result. -/
def CheckResult.Listed (r : CheckResult) : Prop :=
  (r.status = .failed ∨ r.status = .warning) ∧ r.violations ≠ []

/-- Each control with a stored result is active and has an executor, or its framework is
disabled and the list has no violation of the result. -/
def Current {f : Frameworks} (w : World f) : Prop :=
  ∀ r ∈ latestResults none w.results,
    (∃ c ∈ executable (activeControls none w), c.controlId = r.controlId) ∨
      (frameworkEnabled w.settings r.frameworkId = false ∧ ¬r.Listed)

section Settings

variable {f : Frameworks} {w : World f} {frameworkId : String} {c : ResolvedControl}

theorem mem_enabledFrameworks :
    frameworkId ∈ enabledFrameworks w ↔ frameworkEnabled w.settings frameworkId = true := by
  unfold enabledFrameworks frameworkEnabled
  constructor
  · intro h
    obtain ⟨config, hconfig, hid⟩ := List.mem_map.mp h
    obtain ⟨hmem, henabled⟩ := List.mem_filter.mp hconfig
    rw [Collection.get_eq_some_iff.mpr ⟨hmem, hid⟩]
    exact henabled
  · intro h
    cases hget : w.settings.frameworkConfigs.get frameworkId with
    | none =>
      rw [hget] at h
      cases h
    | some config =>
      rw [hget] at h
      obtain ⟨hmem, hid⟩ := Collection.get_eq_some_iff.mp hget
      exact List.mem_map.mpr ⟨config, List.mem_filter.mpr ⟨hmem, h⟩, hid⟩

theorem enabled_of_mem_resolveControls {configs : List ControlConfiguration}
    {controls : List ControlDefinition} (h : c ∈ resolveControls configs frameworkId controls) :
    c.frameworkId = frameworkId ∧
      (configOf configs frameworkId c.controlId).all ControlConfiguration.enabled = true := by
  unfold resolveControls at h
  obtain ⟨defn, -, hdefn⟩ := List.mem_filterMap.mp h
  dsimp only at hdefn
  split at hdefn
  · rename_i henabled
    rw [← Option.some.inj hdefn]
    exact ⟨rfl, henabled⟩
  · cases hdefn

theorem enabled_of_mem_activeControls (h : c ∈ activeControls none w) :
    frameworkEnabled w.settings c.frameworkId = true ∧
      (configOf w.settings.controlConfigs.docs c.frameworkId c.controlId).all
        ControlConfiguration.enabled = true := by
  obtain ⟨id, hid, hc⟩ := List.mem_flatMap.mp h
  have hall : (w.settings.controlConfigs.docs.filter fun c =>
      (wanted none).all (c.frameworkId == ·)) = w.settings.controlConfigs.docs :=
    List.filter_eq_self.mpr fun _ _ => rfl
  rw [hall, List.mem_append] at hc
  have henabled := hc.elim enabled_of_mem_resolveControls enabled_of_mem_resolveControls
  rw [henabled.1]
  exact ⟨(List.mem_filter.mp hid).2, henabled.2⟩

theorem not_disabled_of_mem_activeControls (h : c ∈ activeControls none w) :
    ¬Disabled w c.frameworkId c.controlId := by
  obtain ⟨hframework, hconfig⟩ := enabled_of_mem_activeControls h
  intro hdisabled
  rcases hdisabled with hdisabled | hdisabled
  · rw [hframework] at hdisabled
    cases hdisabled
  · rw [hconfig] at hdisabled
    cases hdisabled

end Settings

theorem countP_eq_of_forall₂ {α β : Type} {R : α → β → Prop} {l : List α} {m : List β}
    {p : α → Bool} {q : β → Bool} (h : List.Forall₂ R l m)
    (hpq : ∀ a, ∀ b ∈ m, R a b → p a = q b) : l.countP p = m.countP q := by
  induction h with
  | nil => rfl
  | cons hab _ ih =>
    rw [List.countP_cons, List.countP_cons, hpq _ _ List.mem_cons_self hab,
      ih fun a b hb => hpq a b (List.mem_cons_of_mem _ hb)]

section Figures

variable {digest : String → String} {execute : ResolvedControl → Option CheckResult}
  {controls : List ResolvedControl} {r : CheckResult} {frameworkId : String}

theorem ids_runChecks (h : Executes execute) :
    ((runChecks digest execute controls).map CheckResult.controlId).Perm
      ((executable controls).map ResolvedControl.controlId) := by
  obtain ⟨cs, hperm, hresults⟩ := @runChecks_results digest execute controls h
  have hids : cs.map ResolvedControl.controlId =
      (runChecks digest execute controls).map CheckResult.controlId := by
    rw [← List.forall₂_eq_eq_eq, List.forall₂_map_left_iff, List.forall₂_map_right_iff]
    exact hresults.imp fun c r hresult => hresult.controlId.symm
  rw [← hids]
  exact hperm.map _

theorem nodup_ids_runChecks (h : Executes execute)
    (hids : (controls.map ResolvedControl.controlId).Nodup) :
    ((runChecks digest execute controls).map CheckResult.controlId).Nodup :=
  (ids_runChecks h).nodup_iff.mpr (hids.sublist (List.filter_sublist.map _))

theorem countP_runChecks (h : Executes execute) {p : ResolvedControl → Bool}
    {q : CheckResult → Bool}
    (hpq : ∀ c, ∀ r ∈ runChecks digest execute controls, r.controlId = c.controlId →
      r.frameworkId = c.frameworkId → p c = q r) :
    (executable controls).countP p = (runChecks digest execute controls).countP q := by
  obtain ⟨cs, hperm, hresults⟩ := @runChecks_results digest execute controls h
  rw [← hperm.countP_eq]
  exact countP_eq_of_forall₂ hresults fun c r hr hresult =>
    hpq c r hr hresult.controlId hresult.frameworkId

theorem countStatus_runChecks (h : Executes execute) {status : CheckStatus}
    (hids : (controls.map ResolvedControl.controlId).Nodup) :
    countStatus (executable controls) (runChecks digest execute controls) frameworkId status =
      (frameworkResults (runChecks digest execute controls) frameworkId).countP
        fun r => r.status == status := by
  have hnodup := @nodup_ids_runChecks digest execute controls h hids
  rw [frameworkResults, List.countP_filter]
  refine countP_runChecks h fun c r hr hid hframework => ?_
  rw [hframework, Bool.and_comm]
  congr 1
  rw [Bool.eq_iff_iff, List.any_eq_true]
  constructor
  · intro ⟨r', hr', hp⟩
    obtain ⟨hid', hp⟩ := Bool.and_eq_true_iff.mp hp
    have hsame : r' = r :=
      List.inj_on_of_nodup_map hnodup hr' hr ((beq_iff_eq.mp hid').trans hid.symm)
    exact hsame ▸ hp
  · intro hp
    exact ⟨r, hr, Bool.and_eq_true_iff.mpr ⟨beq_iff_eq.mpr hid, hp⟩⟩

theorem frameworkScore_runChecks (h : Executes execute)
    (hids : (controls.map ResolvedControl.controlId).Nodup) :
    frameworkScore (runChecks digest execute controls) frameworkId =
      scoreOf (executable controls) (runChecks digest execute controls) frameworkId := by
  have htotal : (frameworkResults (runChecks digest execute controls) frameworkId).length =
      (executable controls).countP fun c => c.frameworkId == frameworkId := by
    rw [frameworkResults, ← List.countP_eq_length_filter]
    exact (countP_runChecks h fun c r _ _ hframework => by rw [hframework]).symm
  rw [frameworkScore, scoreOf, htotal]
  simp only [countStatus_runChecks h hids]

end Figures

theorem latestResults_none {results : List CheckResult} :
    latestResults none results = latest CheckResult.controlId results := by
  have hall : (results.filter fun r => (wanted none).all (r.frameworkId == ·)) = results :=
    List.filter_eq_self.mpr fun _ _ => rfl
  rw [latestResults, hall]

theorem mem_currentViolations {severity : Option String} {results : List CheckResult}
    {d : ViolationDetail} :
    d ∈ currentViolations none severity results ↔
      ∃ r ∈ latestResults none results, (r.status = .failed ∨ r.status = .warning) ∧
        (severity.filter (· ≠ "")).all (r.severity.value == ·) = true ∧ d ∈ r.details := by
  unfold currentViolations
  rw [List.mem_flatMap]
  constructor
  · intro ⟨r, hr, hd⟩
    obtain ⟨hr, hseverity⟩ := List.mem_filter.mp hr
    obtain ⟨hr, hstatus⟩ := List.mem_filter.mp hr
    rw [Bool.or_eq_true_iff, beq_iff_eq, beq_iff_eq] at hstatus
    exact ⟨r, hr, hstatus, hseverity, hd⟩
  · intro ⟨r, hr, hstatus, hseverity, hd⟩
    have hlisted : (r.status == .failed || r.status == .warning) = true := by
      rw [Bool.or_eq_true_iff, beq_iff_eq, beq_iff_eq]
      exact hstatus
    exact ⟨r, List.mem_filter.mpr ⟨List.mem_filter.mpr ⟨hr, hlisted⟩, hseverity⟩, hd⟩

theorem ids_of_mem_details {r : CheckResult} {d : ViolationDetail} (h : d ∈ r.details) :
    d.frameworkId = r.frameworkId ∧ d.controlId = r.controlId ∧ r.violations ≠ [] := by
  obtain ⟨violation, hmem, rfl⟩ := List.mem_map.mp h
  exact ⟨rfl, rfl, List.ne_nil_of_mem hmem⟩

section LastRun

variable {f : Frameworks} {w : World f} {results : List CheckResult} {frameworkId : String}

def stale (w : World f) (results : List CheckResult) : List CheckResult :=
  (latestResults none w.results).filter fun r => r.controlId ∉ results.map CheckResult.controlId

theorem latestResults_append (hnodup : (results.map CheckResult.controlId).Nodup) :
    latestResults none (w.results ++ results) = stale w results ++ results := by
  rw [stale, latestResults_none, latestResults_none, latest_append, latest_eq_self hnodup]

theorem frameworkResults_append {before : List CheckResult} :
    frameworkResults (before ++ results) frameworkId =
      frameworkResults before frameworkId ++ frameworkResults results frameworkId :=
  List.filter_append ..

theorem figures_iff (frameworkIds : List String) {old : List CheckResult} :
    frameworkIds.map (frameworkScore (old ++ results)) = frameworkIds.map (frameworkScore results) ↔
      ∀ r ∈ old, r.frameworkId ∉ frameworkIds := by
  rw [List.map_inj_left]
  constructor
  · intro h r hr hid
    have htotal := congrArg FrameworkScore.totalControls (h r.frameworkId hid)
    change (frameworkResults (old ++ results) r.frameworkId).length =
      (frameworkResults results r.frameworkId).length at htotal
    rw [frameworkResults_append, List.length_append] at htotal
    have hmem : r ∈ frameworkResults old r.frameworkId :=
      List.mem_filter.mpr ⟨hr, beq_self_eq_true _⟩
    have hpositive := List.length_pos_of_mem hmem
    omega
  · intro h id hid
    have hnone : frameworkResults old id = [] := by
      rw [frameworkResults, List.filter_eq_nil_iff]
      intro r hr hframework
      exact h r hr (beq_iff_eq.mp hframework ▸ hid)
    unfold frameworkScore
    rw [frameworkResults_append, hnone, List.nil_append]

end LastRun

section Condition

variable {digest : String → String} {py : Python} {f : Frameworks} {w : World f} {now : Int}
  {fails : ResolvedControl → Bool}

theorem mem_ids_runResults {controlId : String} :
    controlId ∈ (runResults digest py none now fails w).map CheckResult.controlId ↔
      ∃ c ∈ executable (activeControls none w), c.controlId = controlId := by
  unfold runResults
  rw [(ids_runChecks (executes_executeOrFail w.database)).mem_iff, List.mem_map]

theorem reflects_iff_stale :
    Reflects (executable (activeControls none w)) (runResults digest py none now fails w)
        (triggerComplianceRun digest py none now fails w).1 ↔
      ∀ r ∈ stale w (runResults digest py none now fails w),
        frameworkEnabled w.settings r.frameworkId = false ∧ ¬r.Listed := by
  let results := runResults digest py none now fails w
  let after := (triggerComplianceRun digest py none now fails w).1
  have hexecutes := @executes_executeOrFail py now fails w.database
  have hids := @nodup_activeControls f w
  have hlatest : latestResults none after.results = stale w results ++ results :=
    latestResults_append (nodup_ids_runChecks hexecutes hids)
  have hscores : ∀ id, scoreOf (executable (activeControls none w)) results id =
      frameworkScore results id := fun id => (frameworkScore_runChecks hexecutes hids).symm
  have hfigures : ((getDashboard after).frameworks = (enabledFrameworks after).map
      (scoreOf (executable (activeControls none w)) results)) ↔
        ∀ r ∈ stale w results, r.frameworkId ∉ enabledFrameworks w := by
    rw [funext hscores, ← figures_iff, ← hlatest]
    rfl
  have hdisabled : ∀ id, id ∉ enabledFrameworks w ↔ frameworkEnabled w.settings id = false := by
    intro id
    rw [mem_enabledFrameworks, Bool.not_eq_true]
  constructor
  · intro hreflects r hr
    have hframework := (hdisabled _).mp (hfigures.mp hreflects.figures r hr)
    refine ⟨hframework, fun ⟨hstatus, hne⟩ => ?_⟩
    obtain ⟨v, hv⟩ := List.exists_mem_of_ne_nil _ hne
    refine hreflects.violations none ⟨r.controlId, r.frameworkId, r.controlName, r.severity,
      r.checkedAt, v⟩ ?_ (Or.inl hframework)
    refine mem_currentViolations.mpr ⟨r, ?_, hstatus, rfl, List.mem_map.mpr ⟨v, hv, rfl⟩⟩
    rw [hlatest]
    exact List.mem_append_left _ hr
  · intro hstale
    constructor
    · intro c hc
      exact mem_enabledFrameworks.mpr
        (enabled_of_mem_activeControls (List.mem_filter.mp hc).1).1
    · exact hfigures.mpr fun r hr => (hdisabled _).mpr (hstale r hr).1
    · intro severity d hd
      obtain ⟨r, hr, hstatus, -, hdetail⟩ := mem_currentViolations.mp hd
      obtain ⟨hframework, hcontrol, hne⟩ := ids_of_mem_details hdetail
      rw [hlatest] at hr
      rcases List.mem_append.mp hr with hold | hnew
      · exact absurd ⟨hstatus, hne⟩ (hstale r hold).2
      · obtain ⟨cs, hperm, hresults⟩ :=
          @runChecks_results digest _ (activeControls none w) hexecutes
        obtain ⟨c, hc, hresult⟩ := exists_of_mem_right hresults hnew
        rw [hframework, hcontrol, hresult.frameworkId, hresult.controlId]
        exact not_disabled_of_mem_activeControls
          (List.mem_filter.mp (hperm.mem_iff.mp hc)).1

theorem current_iff_stale :
    Current w ↔ ∀ r ∈ stale w (runResults digest py none now fails w),
      frameworkEnabled w.settings r.frameworkId = false ∧ ¬r.Listed := by
  unfold Current stale
  constructor
  · intro hcurrent r hr
    obtain ⟨hlatest, hstale⟩ := List.mem_filter.mp hr
    rw [decide_eq_true_iff, mem_ids_runResults] at hstale
    exact (hcurrent r hlatest).resolve_left hstale
  · intro hstale r hr
    by_cases hactive : ∃ c ∈ executable (activeControls none w), c.controlId = r.controlId
    · exact Or.inl hactive
    · refine Or.inr (hstale r (List.mem_filter.mpr ⟨hr, ?_⟩))
      rw [decide_eq_true_iff, mem_ids_runResults]
      exact hactive

end Condition

/-- After any requests and then a run over all frameworks, the dashboard and the violations are
those of the active controls in that run if and only if every stored result was of such a
control, or of a disabled framework and without a violation that is listed. -/
theorem dashboard_reflects_iff (digest : String → String) (py : Python) (f : Frameworks)
    (database : Database) (requests : List Request) (now : Int) (fails : ResolvedControl → Bool) :
    let w := performs digest py (World.initial f database) requests
    Reflects (executable (activeControls none w)) (runResults digest py none now fails w)
        (triggerComplianceRun digest py none now fails w).1 ↔ Current w :=
  reflects_iff_stale.trans current_iff_stale.symm

/-- A control that is disabled still counts. -/
theorem disabled_control_is_counted :
    ¬∀ (digest : String → String) (py : Python) (f : Frameworks) (database : Database)
      (requests : List Request) (now : Int) (fails : ResolvedControl → Bool),
      let w := performs digest py (World.initial f database) requests
      Reflects (executable (activeControls none w)) (runResults digest py none now fails w)
        (triggerComplianceRun digest py none now fails w).1 := by
  intro hall
  have hreflects := hall id plainPython zoomFrameworks bareDatabase (disablingRequests.take 3) 2
    fun _ => false
  have hcounted : (getDashboard (triggerComplianceRun id plainPython none 2 (fun _ => false)
      (performs id plainPython (World.initial zoomFrameworks bareDatabase)
        (disablingRequests.take 3))).1).frameworks = [⟨"soc2", 1, 0, 1, 0, 0, 0⟩] := by
    decide +kernel
  have hnone : executable (activeControls none (performs id plainPython
      (World.initial zoomFrameworks bareDatabase) (disablingRequests.take 3))) = [] := by
    have hempty : (executable (activeControls none (performs id plainPython
      (World.initial zoomFrameworks bareDatabase) (disablingRequests.take 3)))).length = 0 := by
      decide +kernel
    exact List.eq_nil_of_length_eq_zero hempty
  have hfigures := hcounted.symm.trans hreflects.figures
  rw [hnone] at hfigures
  revert hfigures
  decide +kernel

end Sentora.Compliance
