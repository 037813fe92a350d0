import Sentora.Lib.Machine
import Sentora.Tenancy.LookUps

/-!
# The suspension of a tenant

When the look-ups of a slug see that its tenant was disabled or deleted, in every interleaving
of look-ups with the management of tenants.

A look-up takes the time before it reads, and stores what it reads under that time.  What is
stored is not older than it says.
-/

namespace Sentora.Tenancy

open Auth Lib Process

def answer (decode : Decoder) (now : Nat) (slug : String) (authorization : Option String) :
    Option Tenant → Dispatch
  | none => .respond 404 "Access denied"
  | some tenant =>
    if tenant.disabled then .respond 403 "Access denied"
    else if checkBinding decode now slug authorization = false then .respond 403 "Access denied"
    else .passed (some tenant) tenant.databaseName

theorem dispatch_eq_answer {decode : Decoder} {settings : Settings} {registry : Registry}
    {now : Nat} {cache : TenantCache} {r : Request} {slug : String} (hpath : exempt r.path = false)
    (hslug : present (resolveSlug r) = some slug) (hok : slugOk slug = true) :
    dispatch decode settings registry now cache r =
      ((getTenant now registry cache slug).1,
        answer decode now slug r.authorization (getTenant now registry cache slug).2) := by
  unfold dispatch
  rw [hpath, if_neg Bool.false_ne_true, hslug]
  dsimp only
  rw [hok, if_neg Bool.true_eq_false.mp]
  cases hfound : (getTenant now registry cache slug).2 with
  | none => rfl
  | some tenant =>
    unfold answer
    dsimp only
    cases htenant : tenant.disabled with
    | true => rfl
    | false =>
      cases hbinding : checkBinding decode now slug r.authorization with
      | true => rfl
      | false => rfl

def Refused (found : Option Tenant) : Prop := ∀ t, found = some t → t.disabled = true

/-- The step disables or deletes the tenant of the slug. -/
def TenantOp.Suspends (slug : String) : TenantOp → Prop
  | .updateTenant slug' updates => slug' = slug ∧ updates.disabled = some true
  | .deleteTenant slug' => slug' = slug
  | _ => False

def TenantOp.Revives (slug : String) : TenantOp → Prop
  | .updateTenant slug' updates => slug' = slug ∧ updates.disabled = some false
  | .insertTenant _ _ slug' _ => slug' = slug
  | _ => False

/-- The tenant is not revived, and a call starts in a place that is free. -/
def Unrevived (slug : String) (c : TenantPool) : TenantAct → Prop
  | .start i _ => (c.procs i).next? = none
  | .turn i => ∀ op, (c.procs i).next? = some op → ¬op.Revives slug

/-- What a look-up yields, which is known as soon as it has read. -/
def yields (p : TenantM Reply) : Option (Option Tenant) :=
  match p.next? with
  | some (.storeTenant e) => some (some e.1.tenant)
  | some _ => none
  | none =>
    match p.result? with
    | some (.found found) => some found
    | _ => none

/-- A look-up of the slug that starts 60 seconds later or after that yields a disabled tenant or
none, if it reads before the tenant is revived, and the middleware denies the access. -/
def TakesEffect (slug : String) (c : TenantPool) : Prop :=
  ∀ (acts looking : List TenantAct) (j : Nat) (raises : Bool),
    AllMeet (Pool.perform program) (Unrevived slug) c
      (acts ++ .start j (.lookUp slug raises) :: looking) →
    c.state.clock + 60 ≤ (c.performs program acts).state.clock →
    (∀ call, .start j call ∉ looking) →
    ∀ found, yields ((c.performs program
      (acts ++ .start j (.lookUp slug raises) :: looking)).procs j) = some found →
      Refused found ∧ ∀ decode now authorization, ∃ statusCode,
        answer decode now slug authorization found = .respond statusCode "Access denied"

/-- No tenant of the slug is enabled besides the first one. -/
def Single (slug : String) (registry : Registry) : Prop :=
  ∀ t ∈ registry.tenants.eraseP (hasSlug slug), t.slug = slug → t.disabled = true

section Steps

variable {slug : String} {s : TenantState} {e : CacheEntry} {t : Tenant} {now : Nat}
  {registry : Registry} {cache : TenantCache}

def Stale (now : Nat) (cache : TenantCache) (slug : String) : Prop :=
  ∀ e, cache.lookup slug = some e → ¬now - e.cachedAt < cacheTtl

theorem findTenant_of_none (h : s.registry.findBySlug slug = none) : findTenant slug s = none := by
  unfold findTenant
  split
  · rfl
  · rename_i doc hsome
    cases h.symm.trans hsome

theorem findTenant_of_some (h : s.registry.findBySlug slug = some t) :
    findTenant slug s = some ⟨t, findBySlug_spec h⟩ := by
  unfold findTenant
  split
  · rename_i hnone
    cases h.symm.trans hnone
  · rename_i doc hsome
    cases h.symm.trans hsome
    rfl

theorem fetchTenant_of_none (h : registry.findBySlug slug = none) :
    fetchTenant now registry cache slug = (cache, none) := by
  unfold fetchTenant
  split
  · rfl
  · rename_i doc hsome
    cases h.symm.trans hsome

theorem fetchTenant_of_some (h : registry.findBySlug slug = some t) :
    fetchTenant now registry cache slug =
      ((cache.put ⟨slug, t, now⟩ (findBySlug_spec h)).evict, some t) := by
  unfold fetchTenant
  split
  · rename_i hnone
    cases h.symm.trans hnone
  · rename_i doc hsome
    cases h.symm.trans hsome
    rfl

theorem readCache_of_stale (h : Stale s.clock s.cache slug) :
    readCache slug s = (s, .missing s.clock) := by
  unfold readCache
  split
  · rfl
  · rename_i e he
    rw [if_neg (h e he)]

theorem readCache_of_fresh (he : s.cache.lookup slug = some e)
    (hfresh : s.clock - e.cachedAt < cacheTtl) :
    readCache slug s =
      ({ s with cache := s.cache.put e (s.cache.keyed e (TenantCache.lookup_spec he).1) },
        .fresh e.tenant) := by
  unfold readCache
  split
  · rename_i hnone
    cases he.symm.trans hnone
  · rename_i e' he'
    cases he.symm.trans he'
    rw [if_pos hfresh]

theorem getTenant_of_stale (h : Stale now cache slug) :
    getTenant now registry cache slug = fetchTenant now registry cache slug := by
  unfold getTenant
  split
  · rfl
  · rename_i e he
    rw [if_neg (h e he)]

theorem getTenant_of_fresh (he : cache.lookup slug = some e)
    (hfresh : now - e.cachedAt < cacheTtl) :
    getTenant now registry cache slug =
      (cache.put e (cache.keyed e (TenantCache.lookup_spec he).1), some e.tenant) := by
  unfold getTenant
  split
  · rename_i hnone
    cases he.symm.trans hnone
  · rename_i e' he'
    cases he.symm.trans he'
    rw [if_pos hfresh]

theorem stale_or_fresh (now : Nat) (cache : TenantCache) (slug : String) :
    Stale now cache slug ∨ ∃ e, cache.lookup slug = some e ∧ now - e.cachedAt < cacheTtl := by
  by_cases h : Stale now cache slug
  · exact Or.inl h
  · obtain ⟨e, h⟩ := not_forall.mp h
    obtain ⟨he, hfresh⟩ := Classical.not_imp.mp h
    exact Or.inr ⟨e, he, not_not.mp hfresh⟩

theorem run_call {α : Type} {op : TenantOp} {value : TenantState → α} {s : TenantState} :
    (call op value).run s = (op.apply s, value s) := rfl

theorem run_lookUp (slug : String) (s : TenantState) :
    (lookUp slug false).run s =
      ({ s with cache := (getTenant s.clock s.registry s.cache slug).1 },
        .found (getTenant s.clock s.registry s.cache slug).2) := by
  have happly : (TenantOp.readCache slug).apply s = (readCache slug s).1 := rfl
  unfold lookUp
  rw [run_bind, run_call, happly]
  rcases stale_or_fresh s.clock s.cache slug with hstale | ⟨e, he, hfresh⟩
  · rw [readCache_of_stale hstale, getTenant_of_stale hstale]
    show (fetch slug false s.clock).run s = _
    unfold fetch
    rw [run_bind, run_call]
    dsimp only
    rw [if_neg Bool.false_ne_true]
    cases hfound : s.registry.findBySlug slug with
    | none =>
      rw [findTenant_of_none hfound, fetchTenant_of_none hfound]
      rfl
    | some t =>
      rw [findTenant_of_some hfound, fetchTenant_of_some hfound]
      rfl
  · rw [readCache_of_fresh he hfresh, getTenant_of_fresh he hfresh]
    rfl

end Steps

def TenantOp.leads : TenantOp → TenantState → TenantOp → Prop
  | .readCache slug, s, next => next = .findTenant slug s.clock
  | .findTenant slug now, s, next => ∃ e : KeyedEntry, next = .storeTenant e ∧ e.1.slug = slug ∧
    e.1.cachedAt = now ∧ s.registry.findBySlug slug = some e.1.tenant
  | .getBySlug slug, _, next =>
    next = .deleteTenant slug ∨ ∃ id name plan, next = .insertTenant id name slug plan
  | _, _, _ => False

def tenantScript : Script TenantState TenantOp where
  does l s t := t = l.apply s
  next := TenantOp.leads

section Script

variable {α : Type} {op : TenantOp} {f : α → TenantM Reply} {value : TenantState → α}

theorem always_call_bind
    (hnext : ∀ s l, (f (value s)).next? = some l → op.leads s l)
    (hf : ∀ s, (f (value s)).Always (Plays tenantScript)) :
    (call op value >>= f).Always (Plays tenantScript) :=
  ⟨fun s => ⟨rfl, hnext s⟩, hf⟩

theorem always_pure (reply : Reply) :
    (pure reply : TenantM Reply).Always (Plays tenantScript) :=
  trivial

theorem always_fetch (slug : String) (raises : Bool) (now : Nat) :
    (fetch slug raises now).Always (Plays tenantScript) := by
  cases raises with
  | true => exact always_call_bind (fun _ _ => nofun) fun _ => always_pure _
  | false =>
    refine always_call_bind (fun s l hl => ?_) fun s => ?_
    · cases hfound : s.registry.findBySlug slug with
      | none =>
        rw [findTenant_of_none hfound] at hl
        cases hl
      | some t =>
        rw [findTenant_of_some hfound] at hl
        exact ⟨_, (Option.some.inj hl).symm, rfl, rfl, hfound⟩
    · cases findTenant slug s with
      | none => exact always_pure _
      | some doc => exact always_call_bind (fun _ _ => nofun) fun _ => always_pure _

theorem always_lookUp (slug : String) (raises : Bool) :
    (lookUp slug raises).Always (Plays tenantScript) := by
  refine always_call_bind (fun s l hl => ?_) fun s => ?_
  · rcases stale_or_fresh s.clock s.cache slug with hstale | ⟨e, he, hfresh⟩
    · rw [readCache_of_stale hstale] at hl
      exact (Option.some.inj hl).symm
    · rw [readCache_of_fresh he hfresh] at hl
      cases hl
  · cases (readCache slug s).2 with
    | fresh tenant => exact always_pure _
    | missing now => exact always_fetch slug raises now

theorem always_program (request : TenantCall) :
    (program request).Always (Plays tenantScript) := by
  cases request with
  | lookUp slug raises => exact always_lookUp slug raises
  | wait seconds => exact always_call_bind (fun _ _ => nofun) fun _ => always_pure _
  | update slug updates =>
    show (if updates.isEmpty = true then _ else _ : TenantM Reply).Always (Plays tenantScript)
    split
    · exact always_pure _
    · exact always_call_bind (fun _ _ => nofun) fun _ => always_pure _
  | delete slug =>
    refine always_call_bind (fun s l hl => ?_) fun s => ?_
    · split at hl
      · exact Or.inl (Option.some.inj hl).symm
      · cases hl
    · split
      · exact always_call_bind (fun _ _ => nofun) fun _ => always_pure _
      · exact always_pure _
  | create id name slug plan =>
    refine always_call_bind (fun s l hl => ?_) fun s => ?_
    · split at hl
      · cases hl
      · exact Or.inr ⟨_, _, _, (Option.some.inj hl).symm⟩
    · split
      · exact always_pure _
      · exact always_call_bind (fun _ _ => nofun) fun _ => always_pure _

end Script

section Entries

variable {slug : String} {s : TenantState} {e e' : CacheEntry} {cache : TenantCache}

theorem mem_entries_put {he : Keyed e} (h : e' ∈ (cache.put e he).entries) :
    (e' ∈ cache.entries ∧ e'.slug ≠ e.slug) ∨ e' = e := by
  rcases List.mem_append.mp h with hkept | hnew
  · obtain ⟨hmem, hother⟩ := List.mem_filter.mp hkept
    exact Or.inl ⟨hmem, bne_iff_ne.mp hother⟩
  · exact Or.inr (List.mem_singleton.mp hnew)

theorem mem_entries_drop {n : Nat} {keyed : ∀ e ∈ cache.entries.drop n, Keyed e}
    (h : e ∈ (⟨cache.entries.drop n, keyed⟩ : TenantCache).entries) : e ∈ cache.entries :=
  List.mem_of_mem_drop h

-- The bound is kept out of the comparisons of terms, which would count up to it.
theorem mem_entries_evict (h : e ∈ cache.evict.entries) : e ∈ cache.entries :=
  mem_entries_drop h

theorem mem_entries_store {e : KeyedEntry} (h : e' ∈ (storeTenant e s).cache.entries) :
    e' ∈ s.cache.entries ∨ e' = e.1 := by
  have hput : e' ∈ (s.cache.put e.1 e.2).entries := mem_entries_evict h
  exact (mem_entries_put hput).imp_left And.left

theorem mem_entries_readCache (h : e' ∈ (readCache slug s).1.cache.entries) :
    e' ∈ s.cache.entries := by
  rcases stale_or_fresh s.clock s.cache slug with hstale | ⟨e, he, hfresh⟩
  · rw [readCache_of_stale hstale] at h
    exact h
  · rw [readCache_of_fresh he hfresh] at h
    have hput : e' ∈ (s.cache.put e (s.cache.keyed e (TenantCache.lookup_spec he).1)).entries := h
    rcases mem_entries_put hput with hkept | rfl
    · exact hkept.1
    · exact (TenantCache.lookup_spec he).1

theorem readCache_registry (slug : String) (s : TenantState) :
    (readCache slug s).1.registry = s.registry ∧ (readCache slug s).1.clock = s.clock := by
  rcases stale_or_fresh s.clock s.cache slug with hstale | ⟨e, he, hfresh⟩
  · rw [readCache_of_stale hstale]
    exact ⟨rfl, rfl⟩
  · rw [readCache_of_fresh he hfresh]
    exact ⟨rfl, rfl⟩

theorem clock_setCache (cache : TenantCache) (s : TenantState) :
    ({ s with cache := cache } : TenantState).clock = s.clock :=
  rfl

theorem registry_setCache (cache : TenantCache) (s : TenantState) :
    ({ s with cache := cache } : TenantState).registry = s.registry :=
  rfl

theorem clock_le_apply (op : TenantOp) (s : TenantState) : s.clock ≤ (op.apply s).clock := by
  cases op with
  | readCache slug => exact Nat.le_of_eq (readCache_registry slug s).2.symm
  | wait seconds => exact Nat.le_add_right _ _
  | storeTenant e => exact Nat.le_of_eq (clock_setCache _ s).symm
  | _ => exact Nat.le_refl _

theorem mem_entries_apply {op : TenantOp} (h : e' ∈ (op.apply s).cache.entries) :
    e' ∈ s.cache.entries ∨ ∃ e : KeyedEntry, op = .storeTenant e ∧ e' = e.1 := by
  cases op with
  | readCache slug => exact Or.inl (mem_entries_readCache h)
  | storeTenant e => exact (mem_entries_store h).imp_right fun heq => ⟨e, rfl, heq⟩
  | _ => exact Or.inl h

/-- No entry is later than the clock. -/
def Dated (s : TenantState) : Prop := ∀ e ∈ s.cache.entries, e.cachedAt ≤ s.clock

/-- No look-up under way started later than the clock says. -/
def TenantOp.Dated : TenantOp → TenantState → Prop
  | .findTenant _ now, s => now ≤ s.clock
  | .storeTenant e, s => e.1.cachedAt ≤ s.clock
  | _, _ => True

theorem TenantOp.Dated.later {op : TenantOp} {t : TenantState} (h : op.Dated s)
    (hclock : s.clock ≤ t.clock) : op.Dated t := by
  cases op with
  | findTenant slug now => exact Nat.le_trans h hclock
  | storeTenant e => exact Nat.le_trans h hclock
  | _ => trivial

theorem dated_step (op : TenantOp) (s t : TenantState) (hs : Dated s) (hop : op.Dated s)
    (hdoes : tenantScript.does op s t) :
    Dated t ∧ (∀ next : TenantOp, next.Dated s → next.Dated t) ∧
      ∀ next, tenantScript.next op s next → next.Dated t := by
  have hclock : s.clock ≤ t.clock := by
    rw [show t = op.apply s from hdoes]
    exact clock_le_apply op s
  refine ⟨fun e he => ?_, fun next hnext => hnext.later hclock, fun next hnext => ?_⟩
  · rw [show t = op.apply s from hdoes] at he
    rcases mem_entries_apply he with hkept | ⟨e', rfl, rfl⟩
    · exact Nat.le_trans (hs e hkept) hclock
    · exact Nat.le_trans hop hclock
  · cases op with
    | readCache slug =>
      cases (show next = .findTenant slug s.clock from hnext)
      exact hclock
    | findTenant slug now =>
      obtain ⟨e, rfl, -, hnow, -⟩ := hnext
      exact Nat.le_trans (Nat.le_of_eq hnow) (Nat.le_trans hop hclock)
    | getBySlug slug =>
      rcases hnext with rfl | ⟨id, name, plan, rfl⟩
      · trivial
      · trivial
    | _ => cases hnext

theorem dated_first {request : TenantCall} {op : TenantOp}
    (h : (program request).next? = some op) : op.Dated s := by
  cases request with
  | lookUp slug raises =>
    cases h
    trivial
  | create id name slug plan =>
    cases h
    trivial
  | delete slug =>
    cases h
    trivial
  | wait seconds =>
    cases h
    trivial
  | update slug updates =>
    replace h : (if updates.isEmpty = true then _ else _ : TenantM Reply).next? = some op := h
    split at h
    · cases h
    · cases h
      trivial

theorem dated_performs (registry : Registry) (clock : Nat) (acts : List TenantAct) :
    Pool.Scripted tenantScript Dated TenantOp.Dated
      ((started registry clock).performs program acts) := by
  refine Pool.Scripted.performs ⟨fun e he => ?_, fun _ => trivial, fun _ _ => nofun⟩ dated_step
    fun i request _ => ⟨always_program request, fun s l _ hl => ?_⟩
  · cases he
  · exact dated_first hl

end Entries

section Suspended

variable {slug : String} {since : Nat} {s : TenantState} {op : TenantOp}

/-- Every tenant of the slug is disabled, and what the cache holds of an enabled one is old. -/
structure Suspended (slug : String) (since : Nat) (s : TenantState) : Prop where
  tenants : ∀ t ∈ s.registry.tenants, t.slug = slug → t.disabled = true
  entries : ∀ e ∈ s.cache.entries, e.slug = slug →
    e.tenant.disabled = true ∨ e.cachedAt ≤ since

def TenantOp.Suspended (slug : String) (since : Nat) : TenantOp → Prop
  | .storeTenant e => e.1.slug = slug → e.1.tenant.disabled = true ∨ e.1.cachedAt ≤ since
  | _ => True

theorem tenants_apply (hkept : ¬op.Revives slug)
    (hs : ∀ t ∈ s.registry.tenants, t.slug = slug → t.disabled = true) :
    ∀ t ∈ (op.apply s).registry.tenants, t.slug = slug → t.disabled = true := by
  intro t ht hslug
  cases op with
  | readCache slug' =>
    have hsame : (readCache slug' s).1.registry = s.registry := (readCache_registry slug' s).1
    exact hs t (hsame ▸ ht) hslug
  | insertTenant id name slug' plan =>
    rcases List.mem_append.mp ht with hold | hnew
    · exact hs t hold hslug
    · rw [List.mem_singleton.mp hnew] at hslug
      exact absurd hslug hkept
  | deleteTenant slug' => exact hs t (List.mem_of_mem_eraseP ht) hslug
  | updateTenant slug' u =>
    rcases mem_updateFirst ht with hold | ⟨d, hd, hfound, rfl⟩
    · exact hs t (List.mem_of_mem_eraseP hold) hslug
    · have hhas : hasSlug slug' d = true := List.find?_some hfound
      have hslug' : d.slug = slug' := beq_iff_eq.mp hhas
      have hbefore : d.disabled = true := hs d hd hslug
      show u.disabled.getD d.disabled = true
      cases hdisabled : u.disabled with
      | none => exact hbefore
      | some disabled =>
        cases disabled with
        | true => rfl
        | false => exact absurd ⟨hslug'.symm.trans hslug, hdisabled⟩ hkept
  | storeTenant e =>
    have hsame : (storeTenant e s).registry = s.registry := registry_setCache _ s
    exact hs t (hsame ▸ ht) hslug
  | findTenant slug' now => exact hs t ht hslug
  | getBySlug slug' => exact hs t ht hslug
  | wait seconds => exact hs t ht hslug

theorem suspended_step (hs : Suspended slug since s) (hop : op.Suspended slug since)
    (hkept : ¬op.Revives slug) :
    Suspended slug since (op.apply s) ∧
      ∀ next, op.leads s next → next.Suspended slug since := by
  refine ⟨⟨tenants_apply hkept hs.tenants, fun e he hslug => ?_⟩, fun next hnext => ?_⟩
  · rcases mem_entries_apply he with hold | ⟨e', rfl, rfl⟩
    · exact hs.entries e hold hslug
    · exact hop hslug
  · cases op with
    | readCache slug' =>
      cases (show next = .findTenant slug' s.clock from hnext)
      trivial
    | findTenant slug' now =>
      obtain ⟨e, rfl, hslug', -, hfound⟩ := hnext
      intro hslug
      -- What is read behind the suspension is disabled.
      have hmem : e.1.tenant ∈ s.registry.tenants := List.mem_of_find?_eq_some hfound
      exact Or.inl (hs.tenants _ hmem (e.2.1.trans hslug))
    | getBySlug slug' =>
      rcases hnext with rfl | ⟨id, name, plan, rfl⟩
      · trivial
      · trivial
    | _ => cases hnext

theorem suspended_of_dated (h : op.Dated s) : op.Suspended slug s.clock := by
  cases op with
  | storeTenant e => exact fun _ => Or.inr h
  | _ => trivial

theorem suspended_apply (hs : Dated s) (hop : op.Suspends slug)
    (hsingle : Single slug s.registry) : Suspended slug s.clock (op.apply s) := by
  refine ⟨fun t ht hslug => ?_, fun e he _ => ?_⟩
  · cases op with
    | updateTenant slug' u =>
      obtain ⟨rfl, hdisabled⟩ := hop
      rcases mem_updateFirst ht with hold | ⟨d, -, -, rfl⟩
      · exact hsingle t hold hslug
      · show u.disabled.getD d.disabled = true
        rw [hdisabled]
        rfl
    | deleteTenant slug' =>
      obtain rfl : slug' = slug := hop
      exact hsingle t ht hslug
    | _ => cases hop
  · rcases mem_entries_apply he with hold | ⟨e', rfl, rfl⟩
    · exact Or.inr (hs e hold)
    · cases hop

def Late (slug : String) (since : Nat) (s : TenantState) : Prop :=
  Suspended slug since s ∧ since + 60 ≤ s.clock

def lateCourse (slug : String) (since : Nat) : Phases Unit TenantState TenantOp where
  admits _ op := ∀ e : KeyedEntry, op = .storeTenant e → e.1.tenant.disabled = true
  after _ _ := ()
  holds _ s := Late slug since s

def RefusedReply (reply : Reply) : Prop := ∀ found, reply = .found found → Refused found

theorem refusedReply_some {t : Tenant} (h : t.disabled = true) :
    RefusedReply (.found (some t)) := by
  intro found heq t' ht'
  cases heq
  cases ht'
  exact h

theorem late_step (hs : Late slug since s) (hop : op.Suspended slug since)
    (hkept : ¬op.Revives slug) : Late slug since (op.apply s) :=
  ⟨(suspended_step hs.1 hop hkept).1, Nat.le_trans hs.2 (clock_le_apply op s)⟩

theorem follows_fetch (slug : String) (since now : Nat) (raises : Bool) :
    (fetch slug raises now).Follows (lateCourse slug since) (fun _ => RefusedReply) () := by
  refine ⟨fun _ => nofun, fun s hs => ⟨hs, ?_⟩⟩
  dsimp only [Process.bind]
  cases raises with
  | true => exact fun _ => nofun
  | false =>
    rw [if_neg Bool.false_ne_true]
    cases hfound : s.registry.findBySlug slug with
    | none =>
      rw [findTenant_of_none hfound]
      intro found heq t ht
      cases heq
      cases ht
    | some t =>
      rw [findTenant_of_some hfound]
      have hdisabled : t.disabled = true :=
        hs.1.tenants t (List.mem_of_find?_eq_some hfound) (findBySlug_spec hfound).1
      refine ⟨fun e he => ?_, fun s' hs' => ⟨?_, refusedReply_some hdisabled⟩⟩
      · cases he
        exact hdisabled
      · exact @late_step _ _ _ (.storeTenant _) hs' (fun _ => Or.inl hdisabled) not_false

theorem follows_lookUp (slug : String) (since : Nat) (raises : Bool) :
    (lookUp slug raises).Follows (lateCourse slug since) (fun _ => RefusedReply) () := by
  refine ⟨fun _ => nofun, fun s hs => ⟨?_, ?_⟩⟩
  · exact @late_step _ _ _ (.readCache slug) hs trivial not_false
  · dsimp only [Process.bind]
    rcases stale_or_fresh s.clock s.cache slug with hstale | ⟨e, he, hfresh⟩
    · rw [readCache_of_stale hstale]
      exact follows_fetch slug since s.clock raises
    · rw [readCache_of_fresh he hfresh]
      obtain ⟨hmem, hslug⟩ := TenantCache.lookup_spec he
      -- A fresh entry was cached behind the suspension.
      refine refusedReply_some ((hs.1.entries e hmem hslug).resolve_right fun hold => ?_)
      have hlate := hs.2
      have hfresh' : s.clock - e.cachedAt < 60 := hfresh
      omega

end Suspended

section Runs

variable {slug : String} {since : Nat} {c : TenantPool} {i j : Nat} {op : TenantOp}
variable {t : Tenant} {m : Nat}

abbrev Behind (slug : String) (since : Nat) : TenantPool → Prop :=
  Pool.Scripted tenantScript (Suspended slug since) fun op _ => op.Suspended slug since

theorem suspended_first {request : TenantCall} (h : (program request).next? = some op) :
    op.Suspended slug since := by
  cases request with
  | update slug' updates =>
    replace h : (if updates.isEmpty = true then _ else _ : TenantM Reply).next? = some op := h
    split at h
    · cases h
    · cases h
      trivial
  | _ =>
    cases h
    trivial

theorem behind_perform (h : Behind slug since c) {act : TenantAct} (hact : Unrevived slug c act) :
    Behind slug since (c.perform program act) := by
  cases act with
  | start i request => exact h.start i (always_program request) fun op hop => suspended_first hop
  | turn i =>
    refine h.turn i fun op hl hop hdoes => ?_
    obtain ⟨hstate, hnext⟩ := suspended_step h.state hop (hact op hl)
    rw [← show (c.turn i).state = op.apply c.state from hdoes] at hstate
    exact ⟨hstate, fun _ _ _ _ hother => hother, hnext⟩

theorem clock_le_perform (h : ∀ i, (c.procs i).Always (Plays tenantScript)) (act : TenantAct) :
    c.state.clock ≤ (c.perform program act).state.clock := by
  cases act with
  | start i request => exact Nat.le_refl _
  | turn i =>
    cases hl : (c.procs i).next? with
    | none =>
      have hsame : c.turn i = c := Pool.turn_of_next?_none hl
      exact Nat.le_of_eq (congrArg (fun c => c.state.clock) hsame.symm)
    | some op =>
      have hdoes : (c.turn i).state = op.apply c.state := Pool.does_of_plays (h i).here hl
      show _ ≤ (c.turn i).state.clock
      rw [hdoes]
      exact clock_le_apply op c.state

theorem follows_turn {p : Phases Unit TenantState TenantOp} {Q : Unit → Reply → Prop}
    (h : (c.procs j).Follows p Q ()) (hs : p.holds () c.state) (i : Nat) :
    ((c.turn i).procs j).Follows p Q () := by
  by_cases hji : j = i
  · subst hji
    cases hp : c.procs j with
    | ret reply =>
      rw [Pool.turn_of_ret hp]
      exact h
    | step op u next =>
      rw [hp] at h
      rw [Pool.turn_of_step hp]
      dsimp only
      rw [Function.update_self]
      exact (h.2 c.state hs).2
  · rw [Pool.turn_procs_of_ne hji]
    exact h

/-- The look-up that started late is in place `j`. -/
structure Watched (slug : String) (since : Nat) (j : Nat) (c : TenantPool) : Prop where
  behind : Behind slug since c
  late : since + 60 ≤ c.state.clock
  follows : (c.procs j).Follows (lateCourse slug since) (fun _ => RefusedReply) ()

theorem watched_performs (h : Watched slug since j c) {acts : List TenantAct}
    (hacts : AllMeet (Pool.perform program) (Unrevived slug) c acts)
    (hplace : ∀ request, .start j request ∉ acts) :
    Watched slug since j (c.performs program acts) := by
  induction acts generalizing c with
  | nil => exact h
  | cons act rest ih =>
    have hrest : ∀ request, .start j request ∉ rest := fun request hmem =>
      hplace request (List.mem_cons_of_mem _ hmem)
    refine ih ⟨behind_perform h.behind hacts.1, ?_, ?_⟩ hacts.2 hrest
    · exact Nat.le_trans h.late (clock_le_perform h.behind.plays act)
    · cases act with
      | turn i => exact follows_turn h.follows ⟨h.behind.state, h.late⟩ i
      | start i request =>
        have hji : j ≠ i := by
          intro heq
          rw [heq] at hplace
          exact hplace request List.mem_cons_self
        show ((c.start i (program request)).procs j).Follows _ _ _
        rw [Pool.start_procs_of_ne _ hji]
        exact h.follows

theorem refused_of_follows {p : TenantM Reply} {found : Option Tenant}
    (h : p.Follows (lateCourse slug since) (fun _ => RefusedReply) ())
    (hyields : yields p = some found) : Refused found := by
  cases p with
  | ret reply =>
    cases reply with
    | found found' =>
      cases hyields
      exact h found rfl
    | _ => cases hyields
  | step op u next =>
    cases op with
    | storeTenant e =>
      cases hyields
      intro t ht
      cases ht
      exact h.1 e rfl
    | _ => cases hyields

theorem answer_of_refused {found : Option Tenant} (h : Refused found) (decode : Decoder)
    (now : Nat) (authorization : Option String) :
    ∃ statusCode, answer decode now slug authorization found =
      .respond statusCode "Access denied" := by
  cases found with
  | none => exact ⟨404, rfl⟩
  | some t =>
    refine ⟨403, ?_⟩
    unfold answer
    dsimp only
    rw [h t rfl, if_pos rfl]

theorem behind_performs (h : Behind slug since c) {acts : List TenantAct}
    (hacts : AllMeet (Pool.perform program) (Unrevived slug) c acts) :
    Behind slug since (c.performs program acts) :=
  AllMeet.after (I := Behind slug since) (fun _ _ hc hact => behind_perform hc hact) h hacts

theorem takesEffect_of_behind (h : Behind slug c.state.clock c) : TakesEffect slug c := by
  intro acts looking j raises hacts hlate hplace found hyields
  obtain ⟨hfirst, -, hlooking⟩ := allMeet_append.mp hacts
  have hbehind : Behind slug c.state.clock (c.performs program acts) := behind_performs h hfirst
  have hstarted : Watched slug c.state.clock j
      ((c.performs program acts).start j (lookUp slug raises)) := by
    refine ⟨hbehind.start j (always_lookUp slug raises) fun op hop => ?_, hlate, ?_⟩
    · exact @suspended_first _ _ _ (.lookUp slug raises) hop
    · rw [Pool.start_procs_self]
      exact follows_lookUp slug _ raises
  rw [Pool.performs_append] at hyields
  have hrefused := refused_of_follows (watched_performs hstarted hlooking hplace).follows hyields
  exact ⟨hrefused, answer_of_refused hrefused⟩

theorem clock_of_suspends (hop : op.Suspends slug) (s : TenantState) :
    (op.apply s).clock = s.clock ∧ ∀ next, ¬op.leads s next := by
  cases op with
  | updateTenant slug' updates => exact ⟨rfl, fun _ => id⟩
  | deleteTenant slug' => exact ⟨rfl, fun _ => id⟩
  | _ => cases hop

theorem behind_turn (h : Pool.Scripted tenantScript Dated TenantOp.Dated c)
    (hl : (c.procs i).next? = some op) (hop : op.Suspends slug)
    (hsingle : Single slug c.state.registry) :
    Behind slug (c.turn i).state.clock (c.turn i) := by
  have hdoes : (c.turn i).state = op.apply c.state :=
    Pool.does_of_plays (h.plays i).here hl
  obtain ⟨hclock, hlast⟩ := clock_of_suspends hop c.state
  refine ⟨?_, Pool.turn_always h.plays i, fun j next hnext => ?_⟩
  · rw [hdoes, hclock]
    exact suspended_apply h.state hop hsingle
  · rw [hdoes, hclock]
    by_cases hji : j = i
    · subst hji
      exact absurd (Pool.next_of_plays (h.plays j).here hl hnext) (hlast next)
    · rw [Pool.turn_procs_of_ne hji] at hnext
      exact suspended_of_dated (h.labels j next hnext)

theorem exists_free (registry : Registry) (clock : Nat) (acts : List TenantAct) :
    ∃ n, ∀ m, n ≤ m →
      (((started registry clock).performs program acts).procs m).next? = none := by
  have hacts : ∀ c : TenantPool, (∃ n, ∀ m, n ≤ m → (c.procs m).next? = none) →
      ∃ n, ∀ m, n ≤ m → ((c.performs program acts).procs m).next? = none := by
    induction acts with
    | nil => exact fun c h => h
    | cons act rest ih =>
      intro c h
      obtain ⟨n, hn⟩ := h
      refine ih _ ?_
      cases act with
      | start i request =>
        refine ⟨max n (i + 1), fun m hm => ?_⟩
        show ((c.start i (program request)).procs m).next? = none
        rw [Pool.start_procs_of_ne _ (by omega : m ≠ i)]
        exact hn m (by omega)
      | turn i =>
        refine ⟨n, fun m hm => ?_⟩
        show ((c.turn i).procs m).next? = none
        by_cases hmi : m = i
        · subst hmi
          rw [Pool.turn_of_next?_none (hn m hm)]
          exact hn m hm
        · rw [Pool.turn_procs_of_ne hmi]
          exact hn m hm
  exact hacts _ ⟨0, fun _ _ => rfl⟩

def Quiet (slug : String) (p : TenantM Reply) : Prop :=
  ∀ op, p.next? = some op → ¬op.Revives slug

theorem quiet_call_bind {α : Type} {value : TenantState → α} {f : α → TenantM Reply}
    (hop : ¬op.Revives slug) (hf : ∀ s, (f (value s)).Always (Quiet slug)) :
    (call op value >>= f).Always (Quiet slug) := by
  refine ⟨fun op' h => ?_, hf⟩
  cases h
  exact hop

theorem quiet_ret (reply : Reply) : (.ret reply : TenantM Reply).Always (Quiet slug) :=
  fun _ => nofun

theorem quiet_delete : (program (.delete slug)).Always (Quiet slug) := by
  refine quiet_call_bind not_false fun s => ?_
  split
  · exact quiet_call_bind not_false fun _ => quiet_ret _
  · exact quiet_ret _

theorem quiet_wait {seconds : Nat} : (program (.wait seconds)).Always (Quiet slug) :=
  quiet_call_bind not_false fun _ => quiet_ret _

theorem quiet_lookUp : (program (.lookUp slug false)).Always (Quiet slug) := by
  refine quiet_call_bind not_false fun s => ?_
  cases (readCache slug s).2 with
  | fresh tenant => exact quiet_ret _
  | missing now =>
    refine quiet_call_bind not_false fun s => ?_
    rw [if_neg Bool.false_ne_true]
    cases findTenant slug s with
    | none => exact quiet_ret _
    | some doc => exact quiet_call_bind not_false fun _ => quiet_ret _

theorem alone_of_quiet (h : (c.procs m).Always (Quiet slug)) :
    ∃ n, AllMeet (Pool.perform program) (Unrevived slug) c (List.replicate n (.turn m)) ∧
      (c.performs program (List.replicate n (.turn m))).state =
        ((c.procs m).run c.state).1 ∧
      (c.performs program (List.replicate n (.turn m))).procs m =
        .ret ((c.procs m).run c.state).2 := by
  generalize hp : c.procs m = p at h
  induction p generalizing c with
  | ret reply => exact ⟨0, trivial, rfl, hp⟩
  | step op u next ih =>
    have hturn : (c.turn m).state = u c.state ∧ (c.turn m).procs m = next c.state := by
      rw [Pool.turn_of_step hp]
      exact ⟨rfl, Function.update_self ..⟩
    obtain ⟨n, hquiet, hstate, hend⟩ := ih c.state hturn.2 (h.2 c.state)
    rw [hturn.1] at hstate hend
    refine ⟨n + 1, ⟨fun op' hop' => ?_, hquiet⟩, hstate, hend⟩
    rw [hp] at hop'
    exact h.1 op' hop'

theorem serve_of_quiet {request : TenantCall} (hfree : (c.procs m).next? = none)
    (h : (program request).Always (Quiet slug)) :
    ∃ n, AllMeet (Pool.perform program) (Unrevived slug) c
        (.start m request :: List.replicate n (.turn m)) ∧
      (c.performs program (.start m request :: List.replicate n (.turn m))).state =
        ((program request).run c.state).1 ∧
      (c.performs program (.start m request :: List.replicate n (.turn m))).procs m =
        .ret ((program request).run c.state).2 := by
  have hself : (c.start m (program request)).procs m = program request :=
    Pool.start_procs_self _
  have hquiet : ((c.start m (program request)).procs m).Always (Quiet slug) := by
    rw [hself]
    exact h
  obtain ⟨n, hacts, hstate, hend⟩ := alone_of_quiet hquiet
  rw [hself] at hstate hend
  exact ⟨n, ⟨hfree, hacts⟩, hstate, hend⟩

theorem run_deleteTenant (h : c.state.registry.findBySlug slug = some t) :
    ((deleteTenant slug).run c.state).1 =
      { c.state with registry := c.state.registry.delete slug } := by
  unfold deleteTenant
  rw [run_bind]
  show (Process.run (if (c.state.registry.findBySlug slug).isSome = true then _ else _ :
    TenantM Reply) c.state).1 = _
  rw [h, if_pos Option.isSome_some]
  rfl

theorem exists_enabled (hfree : (c.procs m).next? = none)
    (ht : t ∈ c.state.registry.tenants) (hslug : t.slug = slug) (henabled : t.disabled = false) :
    ∃ acts, AllMeet (Pool.perform program) (Unrevived slug) c acts ∧
      ((c.performs program acts).procs m).next? = none ∧
      (c.performs program acts).state.clock = c.state.clock ∧
      (c.performs program acts).state.cache = c.state.cache ∧
      ∃ t', (c.performs program acts).state.registry.findBySlug slug = some t' ∧
        t'.disabled = false := by
  generalize hlength : c.state.registry.tenants.length = length
  induction length generalizing c with
  | zero =>
    rw [List.length_eq_zero_iff.mp hlength] at ht
    cases ht
  | succ length ih =>
    have hhas : hasSlug slug t = true := beq_iff_eq.mpr hslug
    obtain ⟨d, hd⟩ := Option.isSome_iff_exists.mp (List.find?_isSome.mpr ⟨t, ht, hhas⟩)
    by_cases hdisabled : d.disabled = false
    · exact ⟨[], trivial, hfree, rfl, rfl, d, hd, hdisabled⟩
    · obtain ⟨n, hquiet, hstate, hend⟩ :=
        serve_of_quiet (c := c) hfree (@quiet_delete slug)
      replace hstate := hstate.trans (run_deleteTenant hd)
      let c' := c.performs program (.start m (.delete slug) :: List.replicate n (.turn m))
      have hne : t ≠ d := by
        rintro rfl
        exact hdisabled henabled
      have hrest : t ∈ c'.state.registry.tenants := by
        rw [hstate]
        exact mem_eraseP_of_ne hd hne ht
      have hless : c'.state.registry.tenants.length = length := by
        rw [hstate]
        show (c.state.registry.tenants.eraseP (hasSlug slug)).length = length
        rw [List.length_eraseP_of_mem (List.mem_of_find?_eq_some hd) (List.find?_some hd), hlength]
        rfl
      have hfree' : (c'.procs m).next? = none := by rw [hend]; rfl
      obtain ⟨acts, hacts, hfree'', hclock, hcache, henabled'⟩ := ih hfree' hrest hless
      refine ⟨_ ++ acts, allMeet_append.mpr ⟨hquiet, hacts⟩, ?_⟩
      rw [Pool.performs_append]
      refine ⟨hfree'', hclock.trans ?_, hcache.trans ?_, henabled'⟩
      · rw [hstate]
      · rw [hstate]

theorem stale_of_dated {s t : TenantState} (h : Dated s) (hcache : t.cache = s.cache)
    (hclock : t.clock = s.clock + 60) (slug : String) : Stale t.clock t.cache slug := by
  intro e he hfresh
  rw [hcache] at he
  have hdated := h e (TenantCache.lookup_spec he).1
  have hfresh' : t.clock - e.cachedAt < 60 := hfresh
  omega

theorem single_of_takesEffect (hfree : (c.procs m).next? = none) (hdated : Dated c.state)
    (h : TakesEffect slug c) : ∀ t ∈ c.state.registry.tenants, t.slug = slug →
      t.disabled = true := by
  intro t ht hslug
  by_contra hdisabled
  obtain ⟨acts, hacts, hfree₁, hclock₁, hcache₁, t', hfound, henabled⟩ :=
    exists_enabled hfree ht hslug (Bool.eq_false_iff.mpr hdisabled)
  obtain ⟨n, hwait, hstate₂, hend₂⟩ := serve_of_quiet hfree₁ (@quiet_wait slug 60)
  let c₁ := c.performs program acts
  let c₂ := c₁.performs program (.start m (.wait 60) :: List.replicate n (.turn m))
  have hfree₂ : (c₂.procs m).next? = none := by rw [hend₂]; rfl
  obtain ⟨k, hlookUp, hstate₃, hend₃⟩ :=
    serve_of_quiet hfree₂ (@quiet_lookUp slug)
  have hclock₂ : c₂.state.clock = c.state.clock + 60 := by
    rw [hstate₂, ← hclock₁]
    rfl
  have hcache₂ : c₂.state.cache = c.state.cache := by
    rw [hstate₂, ← hcache₁]
    rfl
  have hfound₂ : c₂.state.registry.findBySlug slug = some t' := by
    rw [hstate₂, ← hfound]
    rfl
  have hstale := stale_of_dated hdated hcache₂ hclock₂ slug
  replace hend₃ := hend₃.trans (congrArg (fun r => Process.ret r.2) (run_lookUp slug c₂.state))
  rw [getTenant_of_stale hstale, fetchTenant_of_some hfound₂] at hend₃
  have hsplit : c.performs program (acts ++ (.start m (.wait 60) :: List.replicate n (.turn m))) =
      c₂ :=
    Pool.performs_append _ _
  have hall := h (acts ++ (.start m (.wait 60) :: List.replicate n (.turn m)))
    (List.replicate k (.turn m)) m false ?_ ?_ ?_ (some t') ?_
  · exact Bool.false_ne_true (henabled.symm.trans (hall.1 t' rfl))
  · refine allMeet_append.mpr ⟨allMeet_append.mpr ⟨hacts, hwait⟩, ?_⟩
    rw [show List.foldl _ c _ = c₂ from hsplit]
    exact hlookUp
  · rw [hsplit]
    exact Nat.le_of_eq hclock₂.symm
  · intro request hmem
    cases List.eq_of_mem_replicate hmem
  · rw [Pool.performs_append, hsplit, hend₃]
    rfl

theorem mem_apply_of_suspends {s : TenantState} (hop : op.Suspends slug)
    (ht : t ∈ s.registry.tenants.eraseP (hasSlug slug)) :
    t ∈ (op.apply s).registry.tenants := by
  cases op with
  | updateTenant slug' updates =>
    obtain ⟨rfl, -⟩ := hop
    exact mem_updateFirst_of_mem_eraseP ht
  | deleteTenant slug' =>
    obtain rfl : slug' = slug := hop
    exact ht
  | _ => cases hop

/-- The disabling and the deletion of a tenant take effect within the cache time if and only if
no other tenant of the slug is enabled. -/
theorem takesEffect_iff_single (registry : Registry) (clock : Nat) (acts : List TenantAct) (i : Nat)
    (slug : String) (op : TenantOp) (c : TenantPool)
    (hc : c = (started registry clock).performs program acts)
    (hl : (c.procs i).next? = some op) (hop : op.Suspends slug) :
    TakesEffect slug (c.turn i) ↔ Single slug c.state.registry := by
  have hdated : Pool.Scripted tenantScript Dated TenantOp.Dated c := hc ▸ dated_performs ..
  constructor
  · intro h t ht hslug
    obtain ⟨n, hfree⟩ := exists_free registry clock (acts ++ [.turn i])
    have hafter : (started registry clock).performs program (acts ++ [.turn i]) = c.turn i := by
      rw [Pool.performs_append, ← hc]
      rfl
    have hdated' : Dated (c.turn i).state := hafter ▸ (dated_performs ..).state
    have hfree' := hfree n (Nat.le_refl n)
    rw [hafter] at hfree'
    have hdoes : (c.turn i).state = op.apply c.state := Pool.does_of_plays (hdated.plays i).here hl
    refine single_of_takesEffect hfree' hdated' h t ?_ hslug
    rw [hdoes]
    exact mem_apply_of_suspends hop ht
  · exact fun hsingle => takesEffect_of_behind (behind_turn hdated hl hop hsingle)

end Runs

section Sample

def disabling : List TenantAct := [.start 0 (.update "acme" { disabled := some true })]

theorem takesEffect_iff_single_disabling :
    TakesEffect "acme" (((started (Registry.empty.create "1" "Acme" "acme" "standard") 0).performs
        program disabling).turn 0) ↔
      Single "acme" (Registry.empty.create "1" "Acme" "acme" "standard") :=
  takesEffect_iff_single _ 0 disabling 0 "acme" _ _ rfl rfl ⟨rfl, rfl⟩

instance TenantOp.Revives.decidable (slug : String) : ∀ op, Decidable (TenantOp.Revives slug op)
  | .updateTenant slug' updates =>
    inferInstanceAs (Decidable (slug' = slug ∧ updates.disabled = some false))
  | .insertTenant _ _ slug' _ => inferInstanceAs (Decidable (slug' = slug))
  | .readCache _ | .findTenant _ _ | .storeTenant _ | .getBySlug _ | .deleteTenant _
  | .wait _ => isFalse id

instance Unrevived.decidable (slug : String) (c : TenantPool) :
    ∀ act, Decidable (Unrevived slug c act)
  | .start i _ => inferInstanceAs (Decidable ((c.procs i).next? = none))
  | .turn i => inferInstanceAs (Decidable (∀ op ∈ (c.procs i).next?, ¬op.Revives slug))

/-- Two creations of one slug both look for it before either of them inserts. -/
def doubleCreation : List TenantAct :=
  [.start 0 (.create "1" "Acme" "acme" "standard"),
    .start 1 (.create "2" "Acme" "acme" "standard"), .turn 0, .turn 1, .turn 0, .turn 1]

/-- One of the two tenants is deleted, and the look-ups find the other one. -/
theorem deleted_tenant_stays :
    ¬∀ (acts : List TenantAct) (i : Nat) (slug : String) (op : TenantOp),
      (((started .empty 0).performs program acts).procs i).next? = some op →
        op.Suspends slug →
        TakesEffect slug (((started .empty 0).performs program acts).turn i) := by
  intro hclaim
  have heffect := hclaim (doubleCreation ++ [.start 0 (.delete "acme"), .turn 0]) 0 "acme"
    (.deleteTenant "acme") (by decide +kernel) rfl
  have hlookUp := heffect [.start 0 (.wait 60), .turn 0] [.turn 0, .turn 0, .turn 0] 0 false
    (by decide +kernel) (by decide +kernel) (by simp)
    (some ⟨"2", "Acme", "acme", some (databaseOf "acme"), false, "standard"⟩) (by decide +kernel)
  exact absurd (hlookUp.1 _ rfl) Bool.false_ne_true

end Sample

end Sentora.Tenancy
