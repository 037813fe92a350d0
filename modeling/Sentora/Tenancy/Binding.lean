import Sentora.Tenancy.Middleware

/-!
# Binding of tokens to tenants

Which requests reach a tenant's database with a token of another tenant.

The middleware checks a token only after the exact text `Bearer `, the handler
accepts the scheme word in any letter case.  With any other spelling of the word
no token is bound to the tenant.
-/

namespace Sentora.Tenancy

open Auth

def NamesTenant (registry : Registry) (now : Nat) (cache : TenantCache) (r : Request)
    (slug : String) (t : Tenant) : Prop :=
  present (resolveSlug r) = some slug ∧ slugOk slug = true ∧
    (getTenant now registry cache slug).2 = some t ∧ t.disabled = false

section Dispatch

variable {decode : Decoder} {settings : Settings} {registry : Registry} {now : Nat}
  {cache : TenantCache} {r : Request} {tenant : Option Tenant} {dbName : Option String}

theorem dispatch_exempt (h : exempt r.path = true) :
    (dispatch decode settings registry now cache r).2 = .passed none (some settings.mongoDb) := by
  unfold dispatch
  rw [if_pos h]

theorem dispatch_passed (h : exempt r.path = false)
    (hpass : (dispatch decode settings registry now cache r).2 = .passed tenant dbName) :
    ∃ slug t, NamesTenant registry now cache r slug t ∧
      checkBinding decode now slug r.authorization = true ∧ tenant = some t ∧
      dbName = t.databaseName := by
  unfold dispatch at hpass
  rw [if_neg (by rw [h]; exact Bool.noConfusion)] at hpass
  cases hslug : present (resolveSlug r) with
  | none =>
    rw [hslug] at hpass
    cases hpass
  | some slug =>
    rw [hslug] at hpass
    dsimp only at hpass
    by_cases hok : slugOk slug = false
    · rw [if_pos hok] at hpass
      cases hpass
    · rw [if_neg hok] at hpass
      cases hfound : (getTenant now registry cache slug).2 with
      | none =>
        rw [hfound] at hpass
        cases hpass
      | some t =>
        rw [hfound] at hpass
        dsimp only at hpass
        by_cases hdisabled : t.disabled = true
        · rw [if_pos hdisabled] at hpass
          cases hpass
        · rw [if_neg hdisabled] at hpass
          by_cases hbound : checkBinding decode now slug r.authorization = false
          · rw [if_pos hbound] at hpass
            cases hpass
          · rw [if_neg hbound] at hpass
            cases hpass
            rw [Bool.not_eq_false] at hok hbound
            rw [Bool.not_eq_true] at hdisabled
            exact ⟨slug, t, ⟨hslug, hok, hfound, hdisabled⟩, hbound, rfl, rfl⟩

theorem dispatch_of_namesTenant {slug : String} {t : Tenant} (h : exempt r.path = false)
    (hnames : NamesTenant registry now cache r slug t)
    (hbound : checkBinding decode now slug r.authorization = true) :
    (dispatch decode settings registry now cache r).2 = .passed (some t) t.databaseName := by
  obtain ⟨hslug, hok, hfound, hdisabled⟩ := hnames
  unfold dispatch
  rw [if_neg (by rw [h]; exact Bool.noConfusion), hslug]
  dsimp only
  rw [if_neg (by rw [hok]; exact Bool.noConfusion), hfound]
  dsimp only
  rw [if_neg (by rw [hdisabled]; exact Bool.noConfusion),
    if_neg (by rw [hbound]; exact Bool.noConfusion)]

theorem getTenant_spec {slug : String} {t : Tenant}
    (h : (getTenant now registry cache slug).2 = some t) :
    t.slug = slug ∧ t.databaseName = some (databaseOf slug) := by
  have hfetch : (fetchTenant now registry cache slug).2 = some t →
      t.slug = slug ∧ t.databaseName = some (databaseOf slug) := by
    intro hfetched
    unfold fetchTenant at hfetched
    split at hfetched
    · cases hfetched
    · rename_i doc hdoc
      rw [← Option.some.inj hfetched]
      exact findBySlug_spec hdoc
  unfold getTenant at h
  split at h
  · exact hfetch h
  · rename_i e hlookup
    split at h
    · rw [← Option.some.inj h]
      obtain ⟨hmem, hslug⟩ := TenantCache.lookup_spec hlookup
      rw [← hslug]
      exact cache.keyed e hmem
    · exact hfetch h

end Dispatch

section Header

variable {header w : String}

theorem header_eq (hne : (authorizationSchemeParam header).2 ≠ "") :
    header.toList = (authorizationSchemeParam header).1.toList ++
      ' ' :: (authorizationSchemeParam header).2.toList := by
  have hsplit := List.takeWhile_append_dropWhile (p := (· ≠ ' ')) (l := header.toList)
  unfold authorizationSchemeParam at hne ⊢
  rw [String.toList_ofList, String.toList_ofList]
  cases hdrop : header.toList.dropWhile (fun c => decide (c ≠ ' ')) with
  | nil =>
    rw [hdrop] at hne
    exact absurd rfl hne
  | cons c rest =>
    have hhead := List.head?_dropWhile_not (fun c => decide (c ≠ ' ')) header.toList
    rw [hdrop] at hhead
    have hc : c = ' ' := by simpa using hhead
    rw [hdrop, hc] at hsplit
    rw [List.drop_one, List.tail_cons]
    exact hsplit.symm

theorem boundToken_of_scheme (hscheme : (authorizationSchemeParam header).1 = "Bearer")
    (hne : (authorizationSchemeParam header).2 ≠ "") :
    boundToken (some header) = some (authorizationSchemeParam header).2 := by
  have heq := header_eq hne
  rw [hscheme] at heq
  have hstarts : startsWith header "Bearer " = true := by
    unfold startsWith
    rw [heq]
    rfl
  show (if startsWith header "Bearer " = true then _ else _) = _
  rw [if_pos hstarts, heq]
  exact congrArg some (String.ofList_toList)

theorem boundToken_eq_none (hscheme : (authorizationSchemeParam header).1 ≠ "Bearer") :
    boundToken (some header) = none := by
  show (if startsWith header "Bearer " = true then _ else _) = _
  rw [if_neg]
  intro hstarts
  unfold startsWith at hstarts
  obtain ⟨rest, hrest⟩ := List.isPrefixOf_iff_prefix.mp hstarts
  apply hscheme
  unfold authorizationSchemeParam
  rw [← hrest]
  rfl

theorem toLower_space : Char.toLower ' ' = ' ' := by decide

theorem authorizationSchemeParam_append (hw : lower w = "bearer") (token : String) :
    authorizationSchemeParam (w ++ (" " ++ token)) = (w, token) := by
  have hfree : ∀ c ∈ w.toList, decide (c ≠ ' ') = true := by
    intro c hc
    rw [decide_eq_true_eq]
    intro hspace
    have hmem : ' ' ∈ (lower w).toList := by
      unfold lower
      rw [String.toList_ofList]
      exact List.mem_map.mpr ⟨c, hc, by rw [hspace]; exact toLower_space⟩
    rw [hw] at hmem
    exact absurd hmem (by decide)
  have hlist : (w ++ (" " ++ token)).toList = w.toList ++ ' ' :: token.toList := by
    rw [String.toList_append, String.toList_append]
    rfl
  unfold authorizationSchemeParam
  rw [hlist, List.takeWhile_append_of_pos hfree, List.dropWhile_append_of_pos hfree]
  have htake : (' ' :: token.toList).takeWhile (fun c => decide (c ≠ ' ')) = [] := rfl
  have hdrop : ((' ' :: token.toList).dropWhile (fun c => decide (c ≠ ' '))).drop 1 =
      token.toList := rfl
  rw [htake, hdrop, List.append_nil, String.ofList_toList, String.ofList_toList]

end Header

/-- A token that is valid at a time was valid before: what bounds it is its
expiry. -/
def Ages (decode : Decoder) : Prop :=
  ∀ now now' token c, now ≤ now' → decode now' token = .ok c → decode now token = .ok c

theorem Ages.verifyToken {decode : Decoder} (h : Ages decode) {now now' : Nat} (hnow : now ≤ now')
    {token : String} {payload : TokenPayload} (hv : verifyToken decode now' token = .ok payload) :
    verifyToken decode now token = .ok payload := by
  unfold Auth.verifyToken at hv ⊢
  cases hdecode : decode now' token with
  | error exc =>
    rw [hdecode] at hv
    cases hv
  | ok c =>
    rw [hdecode] at hv
    rw [h now now' token c hnow hdecode]
    exact hv

section Isolation

variable (bearer : Bearer) (settings : Settings) (registry : Registry) (cache : TenantCache)
  (now now' : Nat) (path : String) (tenantHeader host : Option String) (scheme : String)

/-- Whatever the token: if the middleware passes the request on, the handler
accepts the token and gets the database of a tenant, then the token is of that
tenant or of a `super_admin`. -/
def Isolated : Prop :=
  ∀ (decode : Decoder) (caches : RevocationCaches) (header : String), Ages decode →
    (authorizationSchemeParam header).1 = scheme →
    ∀ tenant dbName payload db,
      (dispatch decode settings registry now cache
        ⟨path, some header, tenantHeader, host⟩).2 = .passed tenant dbName →
      getCurrentUser bearer decode caches now' (some header) = .ok payload →
      getTenantDb settings dbName = .ok db →
      ∀ slug, db = databaseOf slug → payload.role ≠ "super_admin" → payload.tenantId = some slug

/-- The scheme word is none the handler accepts, or the path is exempt and the
default database no tenant's, or it is not and the word is exactly `Bearer` or
no tenant is named. -/
def Checked : Prop :=
  lower scheme ≠ "bearer" ∨
    (exempt path = true ∧ ∀ slug, settings.mongoDb ≠ databaseOf slug) ∨
    (exempt path = false ∧ (scheme = "Bearer" ∨
      ¬∃ slug t, NamesTenant registry now cache ⟨path, none, tenantHeader, host⟩ slug t))

def unboundClaims : Claims :=
  { sub := some "mallory", role := some "viewer", type := some "access" }

def acceptsUnbound : Decoder := fun _ _ => .ok unboundClaims

theorem ages_acceptsUnbound : Ages acceptsUnbound := fun _ _ _ _ _ h => h

variable {bearer settings registry cache now now' path tenantHeader host scheme}

theorem present_some {s : String} (h : s ≠ "") : present (some s) = some s :=
  Option.filter_eq_some_iff.mpr ⟨rfl, decide_eq_true h⟩

theorem databaseOf_ne_empty (slug : String) : databaseOf slug ≠ "" := by
  intro h
  have hlist := congrArg String.toList h
  rw [databaseOf, String.toList_append] at hlist
  cases hlist

theorem present_databaseOf (slug : String) :
    present (some (databaseOf slug)) = some (databaseOf slug) :=
  present_some (databaseOf_ne_empty slug)

theorem getTenantDb_databaseOf (slug : String) :
    getTenantDb settings (some (databaseOf slug)) = .ok (databaseOf slug) := by
  unfold getTenantDb
  rw [present_databaseOf]

theorem getTenantDb_default {db : String}
    (h : getTenantDb settings (some settings.mongoDb) = .ok db) : db = settings.mongoDb := by
  unfold getTenantDb at h
  split at h
  · rename_i dbName hpresent
    rw [← Except.ok.inj h]
    exact (Option.some.inj (Option.filter_eq_some_iff.mp hpresent).1).symm
  · split at h
    · cases h
    · exact (Except.ok.inj h).symm

theorem bound_of_checkBinding {decode : Decoder} {slug : String} {header : String}
    {payload : TokenPayload} (hscheme : (authorizationSchemeParam header).1 = "Bearer")
    (hne : (authorizationSchemeParam header).2 ≠ "")
    (hverify : verifyToken decode now (authorizationSchemeParam header).2 = .ok payload)
    (hbound : checkBinding decode now slug (some header) = true)
    (hrole : payload.role ≠ "super_admin") : payload.tenantId = some slug := by
  unfold checkBinding at hbound
  rw [boundToken_of_scheme hscheme hne] at hbound
  dsimp only at hbound
  rw [hverify] at hbound
  have hallows : bindingAllows slug payload = true := hbound
  unfold bindingAllows at hallows
  rw [Bool.or_eq_true, beq_iff_eq, beq_iff_eq] at hallows
  rcases hallows with hallows | hallows
  · exact absurd hallows hrole
  · exact (Option.filter_eq_some_iff.mp hallows).1

theorem isolated_of_checked (hbearer : TakesToken bearer) (hnow : now ≤ now')
    (h : Checked settings registry cache now path tenantHeader host scheme) :
    Isolated bearer settings registry cache now now' path tenantHeader host scheme := by
  intro decode caches header hages hscheme tenant dbName payload db hpass haccept hdb slug hslug
    hrole
  obtain ⟨credentials, hcred, hverify⟩ := getCurrentUser_spec haccept
  obtain ⟨header', hheader, hlower, hparam, hne⟩ := (hbearer _ _).mp hcred
  rw [← Option.some.inj hheader] at hlower hparam
  rw [← hparam] at hverify hne
  rcases h with h | ⟨hexempt, hdefault⟩ | ⟨hexempt, h⟩
  · rw [hscheme] at hlower
    exact absurd hlower h
  · rw [dispatch_exempt hexempt] at hpass
    injection hpass with _ hname
    rw [← hname] at hdb
    exact absurd ((getTenantDb_default hdb).symm.trans hslug) (hdefault slug)
  · obtain ⟨slug', t, hnames, hbound, -, hname⟩ := dispatch_passed hexempt hpass
    rcases h with h | h
    · rw [h] at hscheme
      have hdbName : dbName = some (databaseOf slug') := by
        rw [hname, (getTenant_spec hnames.2.2.1).2]
      rw [hdbName, getTenantDb_databaseOf] at hdb
      have hsame : slug' = slug := databaseOf_injective ((Except.ok.inj hdb).trans hslug)
      rw [← hsame]
      exact bound_of_checkBinding hscheme hne (hages.verifyToken hnow hverify) hbound hrole
    · exact absurd ⟨slug', t, hnames⟩ h

theorem checked_of_isolated (hbearer : TakesToken bearer)
    (h : Isolated bearer settings registry cache now now' path tenantHeader host scheme) :
    Checked settings registry cache now path tenantHeader host scheme := by
  by_contra hunchecked
  unfold Checked at hunchecked
  simp only [not_or, not_and, not_not] at hunchecked
  obtain ⟨hlower, hexempt, hchecked⟩ := hunchecked
  have hparts := authorizationSchemeParam_append hlower "t"
  have haccept : getCurrentUser bearer acceptsUnbound ⟨fun _ => false, fun _ => false⟩ now'
      (some (scheme ++ (" " ++ "t"))) = .ok { sub := "mallory", role := "viewer" } := by
    have hcred : bearer (some (scheme ++ (" " ++ "t"))) = .ok "t" := by
      refine (hbearer _ _).mpr ⟨_, rfl, ?_, ?_, by decide⟩
      · rw [hparts]
        exact hlower
      · rw [hparts]
    unfold getCurrentUser
    rw [hcred]
    rfl
  have hleak : ∀ tenant dbName slug, dbName = some (databaseOf slug) →
      (dispatch acceptsUnbound settings registry now cache
        ⟨path, some (scheme ++ (" " ++ "t")), tenantHeader, host⟩).2 ≠ .passed tenant dbName := by
    intro tenant dbName slug hname hpass
    have hclaim := h acceptsUnbound _ _ ages_acceptsUnbound (by rw [hparts]) tenant dbName _
      (databaseOf slug) hpass haccept (by rw [hname, getTenantDb_databaseOf]) slug rfl (by decide)
    cases hclaim
  by_cases hpath : exempt path = true
  · have hdefault := hexempt hpath
    simp only [not_forall, not_not] at hdefault
    obtain ⟨slug, hslug⟩ := hdefault
    exact hleak none _ slug (by rw [hslug]) (dispatch_exempt hpath)
  · rw [Bool.not_eq_true] at hpath
    obtain ⟨hword, slug, t, hnames⟩ := hchecked hpath
    have hpass : (dispatch acceptsUnbound settings registry now cache
        ⟨path, some (scheme ++ (" " ++ "t")), tenantHeader, host⟩).2 =
          .passed (some t) t.databaseName := by
      refine dispatch_of_namesTenant hpath hnames ?_
      unfold checkBinding
      rw [boundToken_eq_none (by rw [hparts]; exact hword)]
    exact hleak _ _ slug (getTenant_spec hnames.2.2.1).2 hpass

end Isolation

/-- The law holds of a kind of request, whatever the tokens, exactly where the
middleware checks it or nothing is opened. -/
theorem isolated_iff (bearer : Bearer) (hbearer : TakesToken bearer) (settings : Settings)
    (registry : Registry) (cache : TenantCache) (now now' : Nat) (hnow : now ≤ now')
    (path : String) (tenantHeader host : Option String) (scheme : String) :
    Isolated bearer settings registry cache now now' path tenantHeader host scheme ↔
      Checked settings registry cache now path tenantHeader host scheme :=
  ⟨checked_of_isolated hbearer, isolated_of_checked hbearer hnow⟩

def sampleRegistry : Registry :=
  (Registry.empty.create "1" "Acme" "acme" "standard").create "2" "Globex" "globex" "standard"

theorem exact_scheme_isolated :
    Isolated httpBearer ⟨"sentora", true⟩ sampleRegistry .empty 0 1 "/api/v1/agents/" (some "acme")
      none "Bearer" :=
  (isolated_iff httpBearer takesToken_httpBearer ⟨"sentora", true⟩ sampleRegistry .empty 0 1
    (by decide) "/api/v1/agents/" (some "acme") none "Bearer").mpr
    (Or.inr (Or.inr ⟨by decide, Or.inl rfl⟩))

def globexClaims : Claims :=
  { sub := some "bob", role := some "viewer", type := some "access", tenantId := some "globex" }

/-- The viewer of Globex reads the agents of Acme with the header
`bearer token`. -/
theorem lower_case_scheme_crosses :
    ¬∀ (bearer : Bearer), TakesToken bearer → ∀ (decode : Decoder), Ages decode →
      ∀ (settings : Settings) (registry : Registry) (cache : TenantCache) (now now' : Nat),
      now ≤ now' → ∀ (caches : RevocationCaches) (r : Request) tenant dbName payload db,
      (dispatch decode settings registry now cache r).2 = .passed tenant dbName →
      getCurrentUser bearer decode caches now' r.authorization = .ok payload →
      getTenantDb settings dbName = .ok db →
      ∀ slug, db = databaseOf slug → payload.role ≠ "super_admin" →
        payload.tenantId = some slug := by
  intro hclaim
  have hbound := hclaim httpBearer takesToken_httpBearer (fun _ _ => .ok globexClaims)
    (fun _ _ _ _ _ h => h) ⟨"sentora", true⟩ sampleRegistry .empty 0 1 (by decide)
    ⟨fun _ => false, fun _ => false⟩
    ⟨"/api/v1/agents/", some "bearer token", some "acme", none⟩ _ _ _ _ rfl rfl rfl "acme" rfl
    (by decide)
  exact absurd hbound (by decide)

end Sentora.Tenancy
