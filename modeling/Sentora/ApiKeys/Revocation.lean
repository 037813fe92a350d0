import Sentora.ApiKeys.Service

/-!
# Revocation of API keys

Whether a revoked key can still authenticate.

A revocation clears `is_active` and leaves `grace_expires_at` as it finds it.  A
key that was rotated before keeps its grace period, and both tests of the
authentication accept it until that period ends.
-/

namespace Sentora.ApiKeys

inductive KeyOp where
  | create (req : CreateRequest) (tenantId createdBy : String) (draw : KeyDraw)
  | update (keyId : String) (req : UpdateRequest) (tenantId : String)
  | rotate (keyId tenantId rotatedBy : String) (draw : KeyDraw)
  | revoke (keyId tenantId revokedBy : String) (now : Nat)
  | authenticate (rawKey : String) (clock : Clock) (limited : ApiKey → Bool) (ip : String)

def KeyOp.run (hashKey : String → String) (op : KeyOp) (s : KeyStore) : KeyStore :=
  match op with
  | .create req tenantId createdBy draw => (createApiKey hashKey req tenantId createdBy draw s).1
  | .update keyId req tenantId => (updateApiKey keyId req tenantId s).1
  | .rotate keyId tenantId rotatedBy draw =>
    (rotateApiKey hashKey keyId tenantId rotatedBy draw s).1
  | .revoke keyId tenantId revokedBy now => (revokeApiKey keyId tenantId revokedBy now s).1
  | .authenticate rawKey clock limited ip =>
    (authenticateApiKey hashKey rawKey clock limited ip s).1

def runOps (hashKey : String → String) (ops : List KeyOp) (s : KeyStore) : KeyStore :=
  ops.foldl (fun s op => op.run hashKey s) s

/-! ## A retired key

What no operation undoes: the key is inactive, with the hash, the grace period
and the expiry it was retired with. -/

/-- The stored key is `d` but for its fields of use and of revocation. -/
structure Retired (d k : ApiKey) : Prop where
  id : k.id = d.id
  inactive : k.isActive = false
  keyHash : k.keyHash = d.keyHash
  grace : k.graceExpiresAt = d.graceExpiresAt
  expires : k.expiresAt = d.expiresAt

def HasRetired (d : ApiKey) (s : KeyStore) : Prop := ∃ k ∈ s.keys, Retired d k

section Store

variable {s : KeyStore} {d k k' : ApiKey}

theorem eq_of_id_eq (hk : k ∈ s.keys) (hk' : k' ∈ s.keys) (h : k.id = k'.id) : k = k' :=
  List.inj_on_of_nodup_map s.ids hk hk' h

theorem eq_of_keyHash_eq (hk : k ∈ s.keys) (hk' : k' ∈ s.keys) (h : k.keyHash = k'.keyHash) :
    k = k' :=
  List.inj_on_of_nodup_map s.hashes hk hk' h

theorem findById_spec {keyId : String} (h : findById keyId s = some k) :
    k ∈ s.keys ∧ k.id = keyId := by
  have hid := List.find?_some h
  rw [beq_iff_eq] at hid
  exact ⟨List.mem_of_find?_eq_some h, hid⟩

theorem ownedKey_spec {keyId tenantId : String} (h : ownedKey keyId tenantId s = .ok k) :
    k ∈ s.keys ∧ k.id = keyId := by
  unfold ownedKey at h
  cases hfind : findById keyId s with
  | none =>
    rw [hfind] at h
    cases h
  | some entity =>
    rw [hfind] at h
    dsimp only at h
    by_cases htenant : entity.tenantId ≠ tenantId
    · rw [if_pos htenant] at h
      cases h
    · rw [if_neg htenant] at h
      rw [← Except.ok.inj h]
      exact findById_spec hfind

theorem ne_retired {keyId tenantId : String} (hd : HasRetired d s)
    (h : ownedKey keyId tenantId s = .ok k) (hactive : ¬k.isActive = false) : keyId ≠ d.id := by
  intro heq
  obtain ⟨r, hmem, hr⟩ := hd
  obtain ⟨hk, hid⟩ := ownedKey_spec h
  have hsame : k = r := eq_of_id_eq hk hmem (by rw [hid, heq, hr.id])
  apply hactive
  rw [hsame]
  exact hr.inactive

theorem HasRetired.update_other (hd : HasRetired d s) {keyId : String} (h : keyId ≠ d.id)
    (u : Updates) : HasRetired d (update keyId u s) := by
  obtain ⟨r, hmem, hr⟩ := hd
  refine ⟨r, List.mem_map.mpr ⟨r, hmem, if_neg ?_⟩, hr⟩
  rw [hr.id]
  exact fun heq => h heq.symm

theorem HasRetired.update_same (hd : HasRetired d s) (keyId : String) {u : Updates}
    (hexpires : u.expiresAt = none) (hgrace : u.graceExpiresAt = none) :
    HasRetired d (update keyId u s) := by
  obtain ⟨r, hmem, hr⟩ := hd
  refine ⟨if r.id = keyId then r.set u else r, List.mem_map.mpr ⟨r, hmem, rfl⟩, ?_⟩
  by_cases hid : r.id = keyId
  · rw [if_pos hid]
    refine ⟨hr.id, ?_, hr.keyHash, ?_, ?_⟩
    · show (u.revoked.isNone && r.isActive) = false
      rw [hr.inactive, Bool.and_false]
    · show u.graceExpiresAt.or r.graceExpiresAt = d.graceExpiresAt
      rw [hgrace, Option.none_or]
      exact hr.grace
    · show u.expiresAt.or r.expiresAt = d.expiresAt
      rw [hexpires, Option.none_or]
      exact hr.expires
  · rw [if_neg hid]
    exact hr

theorem HasRetired.create (hd : HasRetired d s) {entity : ApiKey} {s' : KeyStore}
    (h : create entity s = some s') : HasRetired d s' := by
  unfold ApiKeys.create at h
  split at h
  · rw [← Option.some.inj h]
    obtain ⟨r, hmem, hr⟩ := hd
    exact ⟨r, List.mem_append_left _ hmem, hr⟩
  · cases h

end Store

section Runs

variable {hashKey : String → String} {s : KeyStore} {d : ApiKey}

theorem HasRetired.createApiKey (hd : HasRetired d s) (req : CreateRequest)
    (tenantId createdBy : String) (draw : KeyDraw) :
    HasRetired d (createApiKey hashKey req tenantId createdBy draw s).1 := by
  unfold ApiKeys.createApiKey
  split
  · exact hd
  · dsimp only
    split
    · exact hd
    · rename_i s' hcreate
      exact hd.create hcreate

theorem HasRetired.updateApiKey (hd : HasRetired d s) (keyId : String) (req : UpdateRequest)
    (tenantId : String) : HasRetired d (updateApiKey keyId req tenantId s).1 := by
  unfold ApiKeys.updateApiKey
  cases howned : ownedKey keyId tenantId s with
  | error e => exact hd
  | ok entity =>
    dsimp only
    by_cases hactive : entity.isActive = false
    · rw [if_pos hactive]
      exact hd
    · rw [if_neg hactive]
      split
      · exact hd
      · have hset : HasRetired d (if req.updates = {} then s else update keyId req.updates s) := by
          split
          · exact hd
          · exact hd.update_other (ne_retired hd howned hactive) req.updates
        split
        · exact hset
        · exact hset

theorem HasRetired.revokeApiKey (hd : HasRetired d s) (keyId tenantId revokedBy : String)
    (now : Nat) : HasRetired d (revokeApiKey keyId tenantId revokedBy now s).1 := by
  unfold ApiKeys.revokeApiKey
  split
  · exact hd
  · exact hd.update_same keyId rfl rfl

theorem HasRetired.rotateApiKey (hd : HasRetired d s) (keyId tenantId rotatedBy : String)
    (draw : KeyDraw) : HasRetired d (rotateApiKey hashKey keyId tenantId rotatedBy draw s).1 := by
  unfold ApiKeys.rotateApiKey
  cases howned : ownedKey keyId tenantId s with
  | error e => exact hd
  | ok entity =>
    dsimp only
    by_cases hactive : entity.isActive = false
    · rw [if_pos hactive]
      exact hd
    · rw [if_neg hactive]
      have hother := hd.update_other (ne_retired hd howned hactive) {
        revoked := some (draw.now, rotatedBy)
        graceExpiresAt := some (draw.now + Auth.minutes rotationGraceMinutes) }
      split
      · exact hother
      · rename_i s' hcreate
        exact hother.create hcreate

theorem HasRetired.authenticateApiKey (hd : HasRetired d s) (rawKey : String) (clock : Clock)
    (limited : ApiKey → Bool) (ip : String) :
    HasRetired d (authenticateApiKey hashKey rawKey clock limited ip s).1 := by
  unfold ApiKeys.authenticateApiKey
  split
  · exact hd
  · split
    · exact hd
    · split
      · exact hd
      · split
        · exact hd
        · exact hd.update_same _ rfl rfl

theorem HasRetired.run (hd : HasRetired d s) (op : KeyOp) : HasRetired d (op.run hashKey s) := by
  cases op with
  | create req tenantId createdBy draw => exact hd.createApiKey req tenantId createdBy draw
  | update keyId req tenantId => exact hd.updateApiKey keyId req tenantId
  | rotate keyId tenantId rotatedBy draw => exact hd.rotateApiKey keyId tenantId rotatedBy draw
  | revoke keyId tenantId revokedBy now => exact hd.revokeApiKey keyId tenantId revokedBy now
  | authenticate rawKey clock limited ip => exact hd.authenticateApiKey rawKey clock limited ip

theorem HasRetired.runOps (hd : HasRetired d s) (ops : List KeyOp) :
    HasRetired d (runOps hashKey ops s) := by
  induction ops generalizing s with
  | nil => exact hd
  | cons op ops ih => exact ih (hd.run op)

theorem hasRetired_of_revoke {keyId tenantId revokedBy : String} {now : Nat}
    (hd : findById keyId s = some d)
    (hrevoked : (revokeApiKey keyId tenantId revokedBy now s).2 = .ok ()) :
    HasRetired d (revokeApiKey keyId tenantId revokedBy now s).1 := by
  unfold ApiKeys.revokeApiKey at hrevoked ⊢
  cases howned : ownedKey keyId tenantId s with
  | error e =>
    rw [howned] at hrevoked
    cases hrevoked
  | ok entity =>
    obtain ⟨hmem, hid⟩ := findById_spec hd
    refine ⟨d.set { revoked := some (now, revokedBy) },
      List.mem_map.mpr ⟨d, hmem, if_pos hid⟩, rfl, rfl, rfl, ?_, ?_⟩
    · exact Option.none_or
    · exact Option.none_or

/-- The grace period of the key covers both tests of an authentication. -/
def InGrace (d : ApiKey) (clock : Clock) : Prop :=
  ∃ grace, d.graceExpiresAt = some grace ∧ clock.lookup < grace ∧ clock.grace < grace

theorem any_lt_iff {grace : Option Nat} {now : Nat} :
    grace.any (fun g => decide (now < g)) = true ↔ ∃ g, grace = some g ∧ now < g := by
  cases grace with
  | none =>
    simp only [Option.any_none, Bool.false_eq_true, false_iff, not_exists]
    rintro g ⟨hg, -⟩
    cases hg
  | some g =>
    rw [Option.any_some, decide_eq_true_eq]
    constructor
    · exact fun h => ⟨g, rfl, h⟩
    · rintro ⟨g', hg, h⟩
      rw [Option.some.inj hg]
      exact h

theorem find_retired {r : ApiKey} (hmem : r ∈ s.keys) (hr : Retired d r) (now : Nat) :
    findByHashIncludingGrace now d.keyHash s =
      if r.graceExpiresAt.any (fun grace => decide (now < grace)) then some r else none := by
  unfold findByHashIncludingGrace
  have hother : ∀ k ∈ s.keys, k.keyHash = d.keyHash → k = r := fun k hk hhash =>
    eq_of_keyHash_eq hk hmem (hhash.trans hr.keyHash.symm)
  by_cases hgrace : r.graceExpiresAt.any (fun grace => decide (now < grace)) = true
  · rw [if_pos hgrace]
    cases hfind : s.keys.find? (fun k => k.keyHash == d.keyHash &&
        (k.isActive || k.graceExpiresAt.any (fun grace => decide (now < grace)))) with
    | none =>
      have hnone := List.find?_eq_none.mp hfind r hmem
      rw [hr.keyHash, hgrace, Bool.or_true, Bool.and_true, beq_self_eq_true] at hnone
      exact absurd rfl hnone
    | some k =>
      have hquery := List.find?_some hfind
      rw [Bool.and_eq_true, beq_iff_eq] at hquery
      rw [hother k (List.mem_of_find?_eq_some hfind) hquery.1]
  · rw [if_neg hgrace, List.find?_eq_none]
    intro k hk hquery
    rw [Bool.and_eq_true, beq_iff_eq] at hquery
    have hsame := hother k hk hquery.1
    rw [hsame, hr.inactive, Bool.false_or] at hquery
    exact hgrace hquery.2

theorem authenticate_retired {rawKey : String} (hraw : hashKey rawKey = d.keyHash)
    (hd : HasRetired d s) (clock : Clock) (limited : Bool) (ip : String) :
    (∃ ctx, (authenticateApiKey hashKey rawKey clock (fun _ => limited) ip s).2 = .ok ctx) ↔
      InGrace d clock ∧ isExpired d clock.expiry = false ∧ limited = false := by
  obtain ⟨r, hmem, hr⟩ := hd
  unfold authenticateApiKey
  rw [hraw, find_retired hmem hr, hr.grace]
  have hexpired : isExpired r clock.expiry = isExpired d clock.expiry := by
    unfold isExpired
    rw [hr.expires]
  have hcheck : checkGrace r clock.grace =
      d.graceExpiresAt.any (fun grace => decide (clock.grace < grace)) := by
    unfold checkGrace
    rw [hr.inactive, Bool.false_or, hr.grace]
  by_cases hlookup : d.graceExpiresAt.any (fun grace => decide (clock.lookup < grace)) = true
  · rw [if_pos hlookup]
    dsimp only
    rw [hcheck, hexpired]
    obtain ⟨g, hg, hlt⟩ := any_lt_iff.mp hlookup
    by_cases hsecond : clock.grace < g
    · have hin : InGrace d clock := ⟨g, hg, hlt, hsecond⟩
      rw [hg, Option.any_some, decide_eq_true hsecond, if_neg Bool.noConfusion]
      cases isExpired d clock.expiry with
      | true => simp
      | false =>
        cases limited with
        | true => simp
        | false => simp [hin]
    · have hout : ¬InGrace d clock := by
        rintro ⟨g', hg', -, hlt'⟩
        rw [hg] at hg'
        rw [← Option.some.inj hg'] at hlt'
        exact hsecond hlt'
      rw [hg, Option.any_some, decide_eq_false hsecond, if_pos rfl]
      simp [hout]
  · have hout : ¬InGrace d clock := by
      rintro ⟨g, hg, hlt, -⟩
      exact hlookup (any_lt_iff.mpr ⟨g, hg, hlt⟩)
    rw [if_neg hlookup]
    simp [hout]

/-- After a revocation that returned, and whatever follows it, the key fails
exactly where no grace period from a rotation before it is running, or it is
expired, or it is over its limits. -/
theorem revoked_key_fails_iff (hashKey : String → String) (s : KeyStore) (d : ApiKey)
    (keyId tenantId revokedBy : String) (now : Nat) (hd : findById keyId s = some d)
    (hrevoked : (revokeApiKey keyId tenantId revokedBy now s).2 = .ok ()) (after : List KeyOp)
    (rawKey : String) (hraw : hashKey rawKey = d.keyHash) (clock : Clock) (limited : Bool)
    (ip : String) :
    (∀ ctx, (authenticateApiKey hashKey rawKey clock (fun _ => limited) ip
        (runOps hashKey after (revokeApiKey keyId tenantId revokedBy now s).1)).2 ≠ .ok ctx) ↔
      ¬(InGrace d clock ∧ isExpired d clock.expiry = false ∧ limited = false) := by
  have hretired : HasRetired d
      (runOps hashKey after (revokeApiKey keyId tenantId revokedBy now s).1) :=
    (hasRetired_of_revoke hd hrevoked).runOps after
  rw [← authenticate_retired hraw hretired clock limited ip, not_exists]

end Runs

/-- The key that `random` stands for, made at time 0. -/
def sampleKey (random : String) : KeyOp :=
  .create { name := "siem", scopes := ["audit:read"] } "acme" "alice" ⟨0, random, random⟩

def rotatedStore : KeyStore :=
  runOps id [sampleKey "k1", .rotate "k1" "acme" "alice" ⟨10, "k2", "k2"⟩] .empty

/-- The key is made, rotated long before and revoked. -/
theorem lapsed_key_fails :
    ¬∃ ctx, (authenticateApiKey id "sentora_sk_live_k1" ⟨400, 400, 400, 400⟩ (fun _ => false)
      "10.0.0.1" (runOps id [] (revokeApiKey "k1" "acme" "alice" 390 rotatedStore).1)).2 =
        .ok ctx := by
  rw [not_exists]
  obtain ⟨d, hd, hhash, hgrace⟩ : ∃ d, findById "k1" rotatedStore = some d ∧
      d.keyHash = "sentora_sk_live_k1" ∧ d.graceExpiresAt = some 310 := ⟨_, rfl, rfl, rfl⟩
  refine (revoked_key_fails_iff id rotatedStore d "k1" "acme" "alice" 390 hd rfl []
    "sentora_sk_live_k1" hhash.symm ⟨400, 400, 400, 400⟩ false "10.0.0.1").mpr ?_
  rintro ⟨⟨g, hg, hlt, -⟩, -⟩
  rw [hgrace] at hg
  have hg' : g = 310 := (Option.some.inj hg).symm
  have hlt' : 400 < g := hlt
  omega

/-- Twenty seconds after its rotation the key is revoked, and it still
authenticates. -/
theorem rotated_key_survives_revocation :
    ¬∀ (hashKey : String → String) (s : KeyStore) (d : ApiKey)
      (keyId tenantId revokedBy : String) (now : Nat), findById keyId s = some d →
      (revokeApiKey keyId tenantId revokedBy now s).2 = .ok () → ∀ (after : List KeyOp)
      (rawKey : String), hashKey rawKey = d.keyHash → ∀ (clock : Clock), now ≤ clock.lookup →
      clock.lookup ≤ clock.grace → clock.grace ≤ clock.expiry → ∀ (limited : Bool) (ip : String)
      (ctx : AuthContext), (authenticateApiKey hashKey rawKey clock (fun _ => limited) ip
        (runOps hashKey after (revokeApiKey keyId tenantId revokedBy now s).1)).2 ≠ .ok ctx := by
  intro hclaim
  obtain ⟨d, hd, hhash⟩ : ∃ d, findById "k1" rotatedStore = some d ∧
      d.keyHash = "sentora_sk_live_k1" := ⟨_, rfl, rfl⟩
  exact hclaim id rotatedStore d "k1" "acme" "alice" 30 hd rfl [] "sentora_sk_live_k1" hhash.symm
    ⟨31, 31, 31, 31⟩ (by decide) (by decide) (by decide) false "10.0.0.1" _ rfl

end Sentora.ApiKeys
