import Mathlib.Data.List.Nodup
import Sentora.Auth.Tokens

/-!
# API keys

The entity, the collection and the operations of `domains/api_keys`.  Each
operation maps the collection it finds to the one it leaves, with its result.
What `secrets` and `ObjectId` draw, and the clock, are arguments.
-/

namespace Sentora.ApiKeys

open Auth

def readScopes : List String :=
  ["agents:read", "apps:read", "compliance:read", "enforcement:read", "audit:read", "sync:read",
    "taxonomy:read", "fingerprints:read", "dashboard:read"]

def writeScopes : List String := ["sync:trigger", "enforcement:write", "tags:write"]

def availableScopes : List String := readScopes ++ writeScopes ++ ["read:all", "write:all"]

/-- The convenience groups replaced by the scopes they stand for. -/
def expandScopes (scopes : List String) : List String :=
  scopes.flatMap fun scope =>
    if scope = "write:all" then readScopes ++ writeScopes
    else if scope = "read:all" then readScopes
    else [scope]

structure ApiKey where
  id : String
  tenantId : String
  name : String
  description : Option String
  keyPrefix : String
  keyHash : String
  scopes : List String
  rateLimitPerMinute : Nat
  rateLimitPerHour : Nat
  createdAt : Nat
  createdBy : String
  expiresAt : Option Nat
  lastUsedAt : Option Nat := none
  lastUsedIp : Option String := none
  isActive : Bool := true
  revokedAt : Option Nat := none
  revokedBy : Option String := none
  graceExpiresAt : Option Nat := none
  rotatedFromId : Option String := none

/-- The fields of a `$set`.  No update sets the identifier or the hash. -/
structure Updates where
  name : Option String := none
  description : Option String := none
  scopes : Option (List String) := none
  rateLimitPerMinute : Option Nat := none
  rateLimitPerHour : Option Nat := none
  expiresAt : Option Nat := none
  lastUsed : Option (Nat × String) := none
  /-- `is_active` to false, with `revoked_at` and `revoked_by`. -/
  revoked : Option (Nat × String) := none
  graceExpiresAt : Option Nat := none
deriving DecidableEq

def ApiKey.set (u : Updates) (k : ApiKey) : ApiKey :=
  { k with
    name := u.name.getD k.name
    description := u.description.or k.description
    scopes := u.scopes.getD k.scopes
    rateLimitPerMinute := u.rateLimitPerMinute.getD k.rateLimitPerMinute
    rateLimitPerHour := u.rateLimitPerHour.getD k.rateLimitPerHour
    expiresAt := u.expiresAt.or k.expiresAt
    lastUsedAt := (u.lastUsed.map Prod.fst).or k.lastUsedAt
    lastUsedIp := (u.lastUsed.map Prod.snd).or k.lastUsedIp
    isActive := u.revoked.isNone && k.isActive
    revokedAt := (u.revoked.map Prod.fst).or k.revokedAt
    revokedBy := (u.revoked.map Prod.snd).or k.revokedBy
    graceExpiresAt := u.graceExpiresAt.or k.graceExpiresAt }

@[simp] theorem ApiKey.set_id (u : Updates) (k : ApiKey) : (k.set u).id = k.id := rfl

@[simp] theorem ApiKey.set_keyHash (u : Updates) (k : ApiKey) : (k.set u).keyHash = k.keyHash := rfl

/-- The collection under the unique indexes on `_id` and `key_hash`. -/
structure KeyStore where
  keys : List ApiKey
  ids : (keys.map ApiKey.id).Nodup
  hashes : (keys.map ApiKey.keyHash).Nodup

def KeyStore.empty : KeyStore := ⟨[], List.nodup_nil, List.nodup_nil⟩

def findById (keyId : String) (s : KeyStore) : Option ApiKey :=
  s.keys.find? fun k => k.id == keyId

def findByHashIncludingGrace (now : Nat) (keyHash : String) (s : KeyStore) : Option ApiKey :=
  s.keys.find? fun k => k.keyHash == keyHash &&
    (k.isActive || k.graceExpiresAt.any (fun grace => decide (now < grace)))

def update (keyId : String) (u : Updates) (s : KeyStore) : KeyStore where
  keys := s.keys.map fun k => if k.id = keyId then k.set u else k
  ids := by
    have hsame : (ApiKey.id ∘ fun k => if k.id = keyId then k.set u else k) = ApiKey.id := by
      funext k
      show (if k.id = keyId then k.set u else k).id = k.id
      split <;> rfl
    rw [List.map_map, hsame]
    exact s.ids
  hashes := by
    have hsame : (ApiKey.keyHash ∘ fun k => if k.id = keyId then k.set u else k) =
        ApiKey.keyHash := by
      funext k
      show (if k.id = keyId then k.set u else k).keyHash = k.keyHash
      split <;> rfl
    rw [List.map_map, hsame]
    exact s.hashes

theorem nodup_map_concat {α β : Type} [DecidableEq β] {f : α → β} {l : List α} {a : α}
    (hl : (l.map f).Nodup) (ha : f a ∉ l.map f) : ((l ++ [a]).map f).Nodup := by
  rw [List.map_append]
  refine List.Nodup.append hl (List.nodup_singleton (f a)) ?_
  intro b hb hsingle
  have heq : b = f a := List.mem_singleton.mp hsingle
  rw [heq] at hb
  exact ha hb

/-- `insert_one`, or nothing where an index holds the identifier or the hash. -/
def create (entity : ApiKey) (s : KeyStore) : Option KeyStore :=
  if h : entity.id ∉ s.keys.map ApiKey.id ∧ entity.keyHash ∉ s.keys.map ApiKey.keyHash then
    some ⟨s.keys ++ [entity], nodup_map_concat s.ids h.1, nodup_map_concat s.hashes h.2⟩
  else none

/-- `touch`: `last_used_at` and `last_used_ip`. -/
def touch (keyId : String) (now : Nat) (ip : String) (s : KeyStore) : KeyStore :=
  update keyId { lastUsed := some (now, ip) } s

/-- Each constructor is one `raise`, with the data of its message. -/
inductive ApiKeyError where
  | notFound (keyId : String)
  | updateRevoked
  | rotateRevoked
  | invalidScopes (invalid : List String)
  | duplicateKey (keyId : String)
deriving DecidableEq

structure CreateRequest where
  name : String
  description : Option String := none
  scopes : List String
  rateLimitPerMinute : Nat := 60
  rateLimitPerHour : Nat := 1000
  expiresAt : Option Nat := none

structure UpdateRequest where
  name : Option String := none
  description : Option String := none
  scopes : Option (List String) := none
  rateLimitPerMinute : Option Nat := none
  rateLimitPerHour : Option Nat := none
  expiresAt : Option Nat := none

/-- What a call that makes a key draws. -/
structure KeyDraw where
  now : Nat
  id : String
  randomPart : String

def rotationGraceMinutes : Nat := 5

def generateApiKey (hashKey : String → String) (randomPart : String) : String × String × String :=
  let fullKey := "sentora_sk_live_" ++ randomPart
  (fullKey, String.ofList (fullKey.toList.take 20), hashKey fullKey)

def invalidScopes (scopes : List String) : List String :=
  scopes.filter (fun scope => scope ∉ availableScopes)

def createApiKey (hashKey : String → String) (req : CreateRequest) (tenantId createdBy : String)
    (draw : KeyDraw) (s : KeyStore) : KeyStore × Except ApiKeyError (ApiKey × String) :=
  if invalidScopes req.scopes ≠ [] then (s, .error (.invalidScopes (invalidScopes req.scopes)))
  else
    let (fullKey, keyPrefix, keyHash) := generateApiKey hashKey draw.randomPart
    let entity : ApiKey := {
      id := draw.id
      tenantId := tenantId
      name := req.name
      description := req.description
      keyPrefix := keyPrefix
      keyHash := keyHash
      scopes := req.scopes
      rateLimitPerMinute := req.rateLimitPerMinute
      rateLimitPerHour := req.rateLimitPerHour
      createdAt := draw.now
      createdBy := createdBy
      expiresAt := req.expiresAt }
    match create entity s with
    | none => (s, .error (.duplicateKey draw.id))
    | some s' => (s', .ok (entity, fullKey))

def ownedKey (keyId tenantId : String) (s : KeyStore) : Except ApiKeyError ApiKey :=
  match findById keyId s with
  | none => .error (.notFound keyId)
  | some entity => if entity.tenantId ≠ tenantId then .error (.notFound keyId) else .ok entity

def UpdateRequest.updates (req : UpdateRequest) : Updates where
  name := req.name
  description := req.description
  scopes := req.scopes
  rateLimitPerMinute := req.rateLimitPerMinute
  rateLimitPerHour := req.rateLimitPerHour
  expiresAt := req.expiresAt

def updateApiKey (keyId : String) (req : UpdateRequest) (tenantId : String) (s : KeyStore) :
    KeyStore × Except ApiKeyError ApiKey :=
  match ownedKey keyId tenantId s with
  | .error e => (s, .error e)
  | .ok entity =>
    if entity.isActive = false then (s, .error .updateRevoked)
    else if invalidScopes (req.scopes.getD []) ≠ [] then
      (s, .error (.invalidScopes (invalidScopes (req.scopes.getD []))))
    else
      -- no write for an empty request
      let s' := if req.updates = {} then s else update keyId req.updates s
      match findById keyId s' with
      | none => (s', .error (.notFound keyId))
      | some updated => (s', .ok updated)

def revokeApiKey (keyId tenantId revokedBy : String) (now : Nat) (s : KeyStore) :
    KeyStore × Except ApiKeyError Unit :=
  match ownedKey keyId tenantId s with
  | .error e => (s, .error e)
  | .ok _ => (update keyId { revoked := some (now, revokedBy) } s, .ok ())

def rotateApiKey (hashKey : String → String) (keyId tenantId rotatedBy : String) (draw : KeyDraw)
    (s : KeyStore) : KeyStore × Except ApiKeyError (ApiKey × String) :=
  match ownedKey keyId tenantId s with
  | .error e => (s, .error e)
  | .ok entity =>
    if entity.isActive = false then (s, .error .rotateRevoked)
    else
      -- the old key stays valid for the grace period
      let retired := update keyId {
        revoked := some (draw.now, rotatedBy)
        graceExpiresAt := some (draw.now + minutes rotationGraceMinutes) } s
      let (fullKey, keyPrefix, keyHash) := generateApiKey hashKey draw.randomPart
      let newEntity : ApiKey := {
        id := draw.id
        tenantId := entity.tenantId
        name := entity.name
        description := entity.description
        keyPrefix := keyPrefix
        keyHash := keyHash
        scopes := entity.scopes
        rateLimitPerMinute := entity.rateLimitPerMinute
        rateLimitPerHour := entity.rateLimitPerHour
        createdAt := draw.now
        createdBy := rotatedBy
        expiresAt := entity.expiresAt
        rotatedFromId := some entity.id }
      match create newEntity retired with
      | none => (retired, .error (.duplicateKey draw.id))
      | some s' => (s', .ok (newEntity, fullKey))

/-- The readings of the clock an authentication makes, in their order. -/
structure Clock where
  lookup : Nat
  grace : Nat
  expiry : Nat
  used : Nat

/-- The 401 and 429 answers. -/
inductive KeyRejection where
  | invalid | revoked | expired | rateLimited
deriving DecidableEq

structure AuthContext where
  authType : String
  tenantId : String
  userId : Option String := none
  userRole : Option String := none
  apiKeyId : Option String := none
  apiKeyName : Option String := none
  scopes : List String := []

def checkGrace (k : ApiKey) (now : Nat) : Bool :=
  k.isActive || k.graceExpiresAt.any (fun grace => decide (now < grace))

def isExpired (k : ApiKey) (now : Nat) : Bool :=
  k.expiresAt.any (fun expires => decide (expires < now))

/-- `_authenticate_api_key`.  `limited` is what the two rate limiters of the key
say. -/
def authenticateApiKey (hashKey : String → String) (rawKey : String) (clock : Clock)
    (limited : ApiKey → Bool) (ip : String) (s : KeyStore) :
    KeyStore × Except KeyRejection AuthContext :=
  match findByHashIncludingGrace clock.lookup (hashKey rawKey) s with
  | none => (s, .error .invalid)
  | some apiKey =>
    if checkGrace apiKey clock.grace = false then (s, .error .revoked)
    else if isExpired apiKey clock.expiry = true then (s, .error .expired)
    else if limited apiKey = true then (s, .error .rateLimited)
    else (touch apiKey.id clock.used ip s, .ok {
      authType := "api_key"
      tenantId := apiKey.tenantId
      apiKeyId := some apiKey.id
      apiKeyName := some apiKey.name
      scopes := expandScopes apiKey.scopes })

end Sentora.ApiKeys
