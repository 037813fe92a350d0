import Sentora.Lib.Process
import Sentora.Tenancy.Middleware

/-!
# Tenants that change

`_get_tenant` of `middleware/tenant.py` and the endpoints of `domains/tenant/router.py` that
write, cut at their calls of the cache and of the master database.  Two tenants of one slug can
be stored: an index does not forbid it, and the creation of a tenant looks for the slug in an
earlier step than the one that inserts.
-/

namespace Sentora.Tenancy

open Auth Lib Process

deriving instance DecidableEq for Tenant, CacheEntry

structure TenantUpdate where
  name : Option String := none
  disabled : Option Bool := none
  plan : Option String := none
deriving DecidableEq

def TenantUpdate.isEmpty (u : TenantUpdate) : Bool :=
  u.name.isNone && u.disabled.isNone && u.plan.isNone

def TenantUpdate.set (u : TenantUpdate) (t : Tenant) : Tenant :=
  { t with
    name := u.name.getD t.name
    disabled := u.disabled.getD t.disabled
    plan := u.plan.getD t.plan }

def hasSlug (slug : String) (t : Tenant) : Bool := t.slug == slug

theorem mem_updateFirst {p : Tenant → Bool} {f : Tenant → Tenant} {t : Tenant}
    {tenants : List Tenant} (h : t ∈ updateFirst p f tenants) :
    t ∈ tenants.eraseP p ∨ ∃ d ∈ tenants, tenants.find? p = some d ∧ t = f d := by
  induction tenants with
  | nil => cases h
  | cons d rest ih =>
    rw [updateFirst] at h
    by_cases hd : p d = true
    · rw [if_pos hd] at h
      rw [List.eraseP_cons_of_pos hd, List.find?_cons_of_pos hd]
      rcases List.mem_cons.mp h with rfl | hrest
      · exact Or.inr ⟨d, List.mem_cons_self, rfl, rfl⟩
      · exact Or.inl hrest
    · rw [if_neg hd] at h
      rw [List.eraseP_cons_of_neg hd, List.find?_cons_of_neg hd]
      rcases List.mem_cons.mp h with rfl | hrest
      · exact Or.inl List.mem_cons_self
      · rcases ih hrest with hkept | ⟨d', hd', hfound, heq⟩
        · exact Or.inl (List.mem_cons_of_mem _ hkept)
        · exact Or.inr ⟨d', List.mem_cons_of_mem _ hd', hfound, heq⟩

theorem mem_updateFirst_of_mem_eraseP {p : Tenant → Bool} {f : Tenant → Tenant} {t : Tenant}
    {tenants : List Tenant} (h : t ∈ tenants.eraseP p) : t ∈ updateFirst p f tenants := by
  induction tenants with
  | nil => cases h
  | cons d rest ih =>
    rw [updateFirst]
    by_cases hd : p d = true
    · rw [List.eraseP_cons_of_pos hd] at h
      rw [if_pos hd]
      exact List.mem_cons_of_mem _ h
    · rw [List.eraseP_cons_of_neg hd] at h
      rw [if_neg hd]
      rcases List.mem_cons.mp h with rfl | hrest
      · exact List.mem_cons_self
      · exact List.mem_cons_of_mem _ (ih hrest)

theorem mem_eraseP_of_ne {p : Tenant → Bool} {t d : Tenant} {tenants : List Tenant}
    (hd : tenants.find? p = some d) (hne : t ≠ d) (ht : t ∈ tenants) : t ∈ tenants.eraseP p := by
  induction tenants with
  | nil => cases ht
  | cons first rest ih =>
    by_cases hfirst : p first = true
    · rw [List.find?_cons_of_pos hfirst] at hd
      rw [List.eraseP_cons_of_pos hfirst]
      exact (List.mem_cons.mp ht).resolve_left fun heq => hne (heq.trans (Option.some.inj hd))
    · rw [List.find?_cons_of_neg hfirst] at hd
      rw [List.eraseP_cons_of_neg hfirst]
      rcases List.mem_cons.mp ht with rfl | hrest
      · exact List.mem_cons_self
      · exact List.mem_cons_of_mem _ (ih hd hrest)

namespace Registry

def update (r : Registry) (slug : String) (u : TenantUpdate) : Registry where
  tenants := updateFirst (hasSlug slug) u.set r.tenants
  named := by
    intro t ht
    rcases mem_updateFirst ht with hkept | ⟨d, hd, -, rfl⟩
    · exact r.named t (List.mem_of_mem_eraseP hkept)
    · exact r.named d hd

def delete (r : Registry) (slug : String) : Registry where
  tenants := r.tenants.eraseP (hasSlug slug)
  named t ht := r.named t (List.mem_of_mem_eraseP ht)

end Registry

structure TenantState where
  registry : Registry
  cache : TenantCache
  clock : Nat

def Keyed (e : CacheEntry) : Prop :=
  e.tenant.slug = e.slug ∧ e.tenant.databaseName = some (databaseOf e.slug)

abbrev KeyedEntry := { e : CacheEntry // Keyed e }

/-- What a look-up finds in the cache: a tenant, or the time at which it starts. -/
inductive Cached where
  | fresh (tenant : Tenant)
  | missing (now : Nat)

def readCache (slug : String) (s : TenantState) : TenantState × Cached :=
  match h : s.cache.lookup slug with
  | none => (s, .missing s.clock)
  | some e =>
    if s.clock - e.cachedAt < cacheTtl then
      ({ s with cache := s.cache.put e (s.cache.keyed e (TenantCache.lookup_spec h).1) },
        .fresh e.tenant)
    else (s, .missing s.clock)

def findTenant (slug : String) (s : TenantState) :
    Option { t : Tenant // t.slug = slug ∧ t.databaseName = some (databaseOf slug) } :=
  match h : s.registry.findBySlug slug with
  | none => none
  | some doc => some ⟨doc, findBySlug_spec h⟩

def storeTenant (e : KeyedEntry) (s : TenantState) : TenantState :=
  { s with cache := (s.cache.put e.1 e.2).evict }

/-- The calls of the cache and of the database, and the passing of time. -/
inductive TenantOp where
  | readCache (slug : String)
  /-- The read of the master database, by a look-up that started at the time. -/
  | findTenant (slug : String) (now : Nat)
  | storeTenant (e : KeyedEntry)
  | getBySlug (slug : String)
  | insertTenant (id name slug plan : String)
  | updateTenant (slug : String) (updates : TenantUpdate)
  | deleteTenant (slug : String)
  | wait (seconds : Nat)
deriving DecidableEq

def TenantOp.apply : TenantOp → TenantState → TenantState
  | .readCache slug, s => (Tenancy.readCache slug s).1
  | .findTenant _ _, s => s
  | .storeTenant e, s => Tenancy.storeTenant e s
  | .getBySlug _, s => s
  | .insertTenant id name slug plan, s =>
    { s with registry := s.registry.create id name slug plan }
  | .updateTenant slug updates, s => { s with registry := s.registry.update slug updates }
  | .deleteTenant slug, s => { s with registry := s.registry.delete slug }
  | .wait seconds, s => { s with clock := s.clock + seconds }

inductive Reply where
  | found (tenant : Option Tenant)
  | raised
  | refused (e : HttpError)
  | done

abbrev TenantM := Process TenantState TenantOp

def call {α : Type} (op : TenantOp) (answer : TenantState → α) : TenantM α :=
  atomic op fun s => (op.apply s, answer s)

def fetch (slug : String) (raises : Bool) (now : Nat) : TenantM Reply := do
  let doc ← call (.findTenant slug now) (findTenant slug)
  if raises then pure .raised
  else
    match doc with
    | none => pure (.found none)
    | some doc => do
      call (.storeTenant ⟨⟨slug, doc.1, now⟩, doc.2⟩) fun _ => ()
      pure (.found (some doc.1))

/-- `_get_tenant`. -/
def lookUp (slug : String) (raises : Bool) : TenantM Reply := do
  let cached ← call (.readCache slug) fun s => (readCache slug s).2
  match cached with
  | .fresh tenant => pure (.found (some tenant))
  | .missing now => fetch slug raises now

def notFound (slug : String) : Reply := .refused ⟨404, "Tenant '" ++ slug ++ "' not found"⟩

def createTenant (id name slug plan : String) : TenantM Reply := do
  let existing ← call (.getBySlug slug) fun s => s.registry.findBySlug slug
  if existing.isSome then
    pure (.refused ⟨409, "Tenant with slug '" ++ slug ++ "' already exists"⟩)
  else do
    call (.insertTenant id name slug plan) fun _ => ()
    pure .done

def updateTenant (slug : String) (updates : TenantUpdate) : TenantM Reply :=
  if updates.isEmpty then pure (.refused ⟨400, "No fields to update"⟩)
  else do
    let updated ← call (.updateTenant slug updates) fun s => s.registry.findBySlug slug
    pure (if updated.isSome then .done else notFound slug)

def deleteTenant (slug : String) : TenantM Reply := do
  let tenant ← call (.getBySlug slug) fun s => s.registry.findBySlug slug
  if tenant.isSome then do
    let deleted ← call (.deleteTenant slug) fun s => s.registry.findBySlug slug
    pure (if deleted.isSome then .done else notFound slug)
  else pure (notFound slug)

inductive TenantCall where
  | lookUp (slug : String) (raises : Bool)
  | create (id name slug plan : String)
  | update (slug : String) (updates : TenantUpdate)
  | delete (slug : String)
  | wait (seconds : Nat)

def program : TenantCall → TenantM Reply
  | .lookUp slug raises => lookUp slug raises
  | .create id name slug plan => createTenant id name slug plan
  | .update slug updates => updateTenant slug updates
  | .delete slug => deleteTenant slug
  | .wait seconds => do
    call (.wait seconds) fun _ => ()
    pure .done

abbrev TenantPool := Pool Nat TenantState TenantOp (fun _ => Reply)

abbrev TenantAct := Pool.Act Nat TenantCall

def started (registry : Registry) (clock : Nat) : TenantPool where
  state := ⟨registry, .empty, clock⟩
  procs _ := .ret .done

end Sentora.Tenancy
