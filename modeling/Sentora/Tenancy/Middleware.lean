import Sentora.Auth.Access

/-!
# Tenant resolution

The registry of tenants in the master database, the cache of look-ups, the
dispatch of `middleware/tenant.py` and `get_tenant_db` of `database.py`.
-/

namespace Sentora.Tenancy

open Auth

structure Tenant where
  id : String
  name : String
  slug : String
  databaseName : Option String
  disabled : Bool
  plan : String

/-- The name `create` gives the database of a new tenant. -/
def databaseOf (slug : String) : String := "sentora_tenant_" ++ slug

theorem databaseOf_injective : Function.Injective databaseOf := by
  intro a b h
  exact (String.append_right_inj "sentora_tenant_").mp h

/-- The tenants collection.  No operation changes the slug or the database of a
tenant. -/
structure Registry where
  tenants : List Tenant
  named : ∀ t ∈ tenants, t.databaseName = some (databaseOf t.slug)

namespace Registry

def empty : Registry := ⟨[], List.forall_mem_nil _⟩

def create (r : Registry) (id name slug plan : String) : Registry where
  tenants := r.tenants ++ [⟨id, name, slug, some (databaseOf slug), false, plan⟩]
  named := by
    intro t ht
    rcases List.mem_append.mp ht with ht | ht
    · exact r.named t ht
    · rw [List.mem_singleton.mp ht]

def findBySlug (r : Registry) (slug : String) : Option Tenant :=
  r.tenants.find? fun t => t.slug == slug

end Registry

structure CacheEntry where
  slug : String
  tenant : Tenant
  cachedAt : Nat

/-- `_tenant_cache`, the least recently used entry first.  What it holds for a
slug is a tenant of that slug. -/
structure TenantCache where
  entries : List CacheEntry
  keyed : ∀ e ∈ entries, e.tenant.slug = e.slug ∧
    e.tenant.databaseName = some (databaseOf e.slug)

def cacheTtl : Nat := 60

def tenantCacheMax : Nat := 10000

namespace TenantCache

def empty : TenantCache := ⟨[], List.forall_mem_nil _⟩

def lookup (c : TenantCache) (slug : String) : Option CacheEntry :=
  c.entries.find? fun e => e.slug == slug

def put (c : TenantCache) (e : CacheEntry)
    (he : e.tenant.slug = e.slug ∧ e.tenant.databaseName = some (databaseOf e.slug)) :
    TenantCache where
  entries := c.entries.filter (fun e' => e'.slug != e.slug) ++ [e]
  keyed := by
    intro e' he'
    rcases List.mem_append.mp he' with he' | he'
    · exact c.keyed e' (List.mem_filter.mp he').1
    · rw [List.mem_singleton.mp he']
      exact he

def evict (c : TenantCache) : TenantCache where
  entries := c.entries.drop (c.entries.length - tenantCacheMax)
  keyed := fun e he => c.keyed e (List.mem_of_mem_drop he)

theorem lookup_spec {c : TenantCache} {slug : String} {e : CacheEntry}
    (h : c.lookup slug = some e) : e ∈ c.entries ∧ e.slug = slug := by
  have hslug := List.find?_some h
  rw [beq_iff_eq] at hslug
  exact ⟨List.mem_of_find?_eq_some h, hslug⟩

end TenantCache

theorem findBySlug_spec {r : Registry} {slug : String} {t : Tenant}
    (h : r.findBySlug slug = some t) :
    t.slug = slug ∧ t.databaseName = some (databaseOf slug) := by
  have hslug := List.find?_some h
  rw [beq_iff_eq] at hslug
  refine ⟨hslug, ?_⟩
  rw [← hslug]
  exact r.named t (List.mem_of_find?_eq_some h)

def fetchTenant (now : Nat) (registry : Registry) (cache : TenantCache) (slug : String) :
    TenantCache × Option Tenant :=
  match h : registry.findBySlug slug with
  | none => (cache, none)
  | some doc => ((cache.put ⟨slug, doc, now⟩ (findBySlug_spec h)).evict, some doc)

def getTenant (now : Nat) (registry : Registry) (cache : TenantCache) (slug : String) :
    TenantCache × Option Tenant :=
  match h : cache.lookup slug with
  | none => fetchTenant now registry cache slug
  | some e =>
    if now - e.cachedAt < cacheTtl then
      (cache.put e (cache.keyed e (TenantCache.lookup_spec h).1), some e.tenant)
    else fetchTenant now registry cache slug

structure Request where
  path : String
  authorization : Option String := none
  tenantHeader : Option String := none
  host : Option String := none
deriving DecidableEq

structure Settings where
  mongoDb : String
  multiTenancyEnabled : Bool := true

def exemptPrefixes : List String :=
  ["/health", "/metrics", "/api/v1/tenants", "/api/v1/branding", "/api/v1/deployment-info",
    "/api/v1/auth/login", "/api/v1/auth/register", "/api/v1/auth/refresh",
    "/api/v1/auth/password-policy", "/api/v1/auth/oidc", "/api/v1/auth/saml", "/api/spec"]

def startsWith (s p : String) : Bool := p.toList.isPrefixOf s.toList

def exempt (path : String) : Bool :=
  exemptPrefixes.any fun p => path == p || startsWith path (p ++ "/")

def slugChar (c : Char) : Bool := c.isLower || c.isDigit

/-- `^[a-z0-9][a-z0-9-]*$`, where `$` also matches before a last line break. -/
def slugOk (slug : String) : Bool :=
  match slug.toList with
  | [] => false
  | c :: cs =>
    let rest := if cs.getLast? = some '\n' then cs.dropLast else cs
    slugChar c && rest.all (fun c => slugChar c || c == '-')

/-- The white space of Latin-1 that `str.strip` removes. -/
def isSpace (c : Char) : Bool :=
  c == ' ' || (9 ≤ c.toNat && c.toNat ≤ 13) || (28 ≤ c.toNat && c.toNat ≤ 31) ||
    c.toNat == 133 || c.toNat == 160

def strip (s : String) : String :=
  String.ofList (((s.toList.dropWhile isSpace).reverse.dropWhile isSpace).reverse)

def resolveSlug (r : Request) : Option String :=
  match present r.tenantHeader with
  | some header => some (lower (strip header))
  | none =>
    let hostname := ((r.host.getD "").toList.splitOn ':').headD []
    let parts := hostname.splitOn '.'
    let subdomain := String.ofList (parts.headD [])
    if 3 ≤ parts.length ∧ subdomain ∉ ["www", "api", "app", "localhost"] then some subdomain
    else none

/-- The answer of the middleware itself, or the state it passes the request on
with. -/
inductive Dispatch where
  | respond (statusCode : Nat) (detail : String)
  | passed (tenant : Option Tenant) (tenantDbName : Option String)

/-- The token the middleware checks the binding of: what follows the exact text
`Bearer `. -/
def boundToken (authorization : Option String) : Option String :=
  match authorization with
  | none => none
  | some header =>
    if startsWith header "Bearer " then some (String.ofList (header.toList.drop 7)) else none

def bindingAllows (slug : String) (payload : TokenPayload) : Bool :=
  payload.role == "super_admin" || (present payload.tenantId == some slug)

def checkBinding (decode : Decoder) (now : Nat) (slug : String) (authorization : Option String) :
    Bool :=
  match boundToken authorization with
  | none => true
  | some token =>
    match verifyToken decode now token with
    | .error _ => true
    | .ok payload => bindingAllows slug payload

def dispatch (decode : Decoder) (settings : Settings) (registry : Registry) (now : Nat)
    (cache : TenantCache) (r : Request) : TenantCache × Dispatch :=
  if exempt r.path then (cache, .passed none (some settings.mongoDb))
  else
    match present (resolveSlug r) with
    | none =>
      (cache, .respond 400 ("Tenant not specified. Provide X-Tenant-ID header or use a " ++
        "tenant subdomain."))
    | some slug =>
      if slugOk slug = false then (cache, .respond 400 "Invalid tenant identifier")
      else
        let (cache', found) := getTenant now registry cache slug
        match found with
        | none => (cache', .respond 404 "Access denied")
        | some tenant =>
          if tenant.disabled then (cache', .respond 403 "Access denied")
          else if checkBinding decode now slug r.authorization = false then
            (cache', .respond 403 "Access denied")
          else (cache', .passed (some tenant) tenant.databaseName)

/-- `get_tenant_db`: the name of the database a handler works on. -/
def getTenantDb (settings : Settings) (tenantDbName : Option String) : Except String String :=
  match present tenantDbName with
  | some dbName => .ok dbName
  | none =>
    if settings.multiTenancyEnabled then
      .error "Tenant context not resolved — request may have bypassed TenantMiddleware"
    else .ok settings.mongoDb

end Sentora.Tenancy
