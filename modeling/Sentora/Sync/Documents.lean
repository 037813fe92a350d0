import Sentora.Lib.Collection
import Sentora.Auth.Access

/-!
# Documents of the sync

The documents of the five canonical collections, and the normalisation of what the
SentinelOne API returns (`domains/sync/normalizer.py`,
`domains/sources/identity.py`).

Times are counted in microseconds.  SentinelOne ids are decimal numerals: a raw
object holds the number, a document the numeral.
-/

namespace Sentora.Sync

open Lib

/-- What the normalisers take from Python: `uuid5` in the namespace of the
identities, the functions of `str` and `unicodedata`, and the text of a time. -/
structure Python where
  uuid5 : String → String
  lower : String → String
  nfkd : String → String
  combining : Char → Bool
  isSpace : Char → Bool
  isDecimal : Char → Bool
  isoformat : Nat → String

def canonicalId (py : Python) (source sourceId : String) : String :=
  py.uuid5 (source ++ ":" ++ sourceId)

/-! ## Stored documents

Fields that a document may lack are options where a query asks for them. -/

structure SiteDoc where
  id : String
  source : Option String
  sourceId : String
  name : String
  state : String := ""
  siteType : String := ""
  accountId : String := ""
  accountName : String := ""
deriving DecidableEq

structure GroupDoc where
  id : String
  source : Option String
  sourceId : String
  name : String
  description : Option String := none
  type : String := ""
  isDefault : Bool := false
  filterName : Option String := none
  agentCount : Nat := 0
  siteId : String := ""
  siteName : String := ""
  createdAt : Option String := none
  updatedAt : Option String := none
deriving DecidableEq

structure SourceMetadata where
  ou : Option String
  systemManufacturer : Option String
  systemProductName : Option String
  platformId : Option String
  provisionStatus : Option String
  externalIp : Option String
deriving DecidableEq

structure AgentDoc where
  id : String
  source : Option String
  sourceId : String
  hostname : String
  osType : String := "unknown"
  osVersion : String := ""
  groupId : String := ""
  groupName : String := ""
  siteId : String := ""
  siteName : String := ""
  agentStatus : String := "offline"
  agentVersion : Option String := none
  lastActive : String := ""
  firstSeen : Option String := none
  machineType : String := "unknown"
  domain : Option String := none
  ipAddresses : List String := []
  macAddresses : Option (List String) := none
  groups : Option (List String) := none
  tags : List String := []
  sourceMetadata : Option SourceMetadata := none
  syncedAt : Option Nat := none
  installedAppNames : Option (List String) := none
deriving DecidableEq

structure AppDoc where
  id : String
  source : Option String
  sourceId : String
  agentId : String
  name : String
  normalizedName : String
  version : Option String := none
  publisher : Option String := none
  size : Option Nat := none
  installedAt : Option String := none
  osType : Option String := none
  appType : Option String := none
  riskLevel : Option String := none
  sourceUpdatedAt : Option String := none
  sourceCreatedAt : Option String := none
  syncedAt : Option Nat := none
  lastSyncedAt : Option Nat := none
  active : Option Bool := none
deriving DecidableEq

structure TagDoc where
  id : String
  source : Option String
  sourceId : String
  name : String
  value : Option String := none
  description : Option String := none
  type : String := ""
  scope : String := ""
  scopeId : Option String := none
  scopePath : Option String := none
  creator : Option String := none
  totalEndpoints : Nat := 0
  createdAt : Option String := none
  updatedAt : Option String := none
  syncedAt : Option Nat := none
deriving DecidableEq

/-- `active: {"$ne": False}`. -/
def AppDoc.isActive (d : AppDoc) : Bool := d.active != some false

section Names

variable (py : Python)

def strip (cs : List Char) : List Char :=
  ((cs.dropWhile py.isSpace).reverse.dropWhile py.isSpace).reverse

/-- `re.sub(r"\s+", " ", …)`. -/
def collapseSpaces : List Char → List Char
  | [] => []
  | c :: cs =>
    match py.isSpace c, collapseSpaces cs with
    | false, rest => c :: rest
    | true, ' ' :: rest => ' ' :: rest
    | true, rest => ' ' :: rest

/-- `\d+`. -/
def dropDigits (cs : List Char) : Option (List Char) :=
  match cs with
  | [] => none
  | c :: rest => if py.isDecimal c then some (rest.dropWhile py.isDecimal) else none

def dropDot : List Char → Option (List Char)
  | '.' :: rest => some rest
  | _ => none

/-- `\s+(?:-\s*)?\d+\.\d+\.\d[\d.]*\s*$` matches here. -/
def isVersionSuffix (cs : List Char) : Bool :=
  let numbers := cs.dropWhile py.isSpace
  let digits :=
    match numbers with
    | '-' :: rest => rest.dropWhile py.isSpace
    | _ => numbers
  let last := do
    let rest ← dropDigits py digits
    let rest ← dropDot rest
    let rest ← dropDigits py rest
    let rest ← dropDot rest
    dropDigits py rest
  decide (numbers.length < cs.length) &&
    last.any fun rest =>
      ((rest.dropWhile fun c => py.isDecimal c || c == '.').dropWhile py.isSpace).isEmpty

def stripVersionSuffix : List Char → List Char
  | [] => []
  | c :: cs => if isVersionSuffix py (c :: cs) then [] else c :: stripVersionSuffix cs

def normalizeAppName (name version : String) : String :=
  let plain := (py.nfkd name).toList.filter fun c => !py.combining c
  let lower := (py.lower (String.ofList plain)).toList.filter fun c => c ∉ ['™', '®', '©']
  let name := strip py (collapseSpaces py lower)
  let suffixes := [" - ", " "].map fun sep =>
    (sep ++ py.lower (String.ofList (strip py version.toList))).toList
  let found := if version = "" then none else suffixes.find? fun s => s.isSuffixOf name
  match found with
  | some suffix =>
    let kept := name.take (name.length - suffix.length)
    String.ofList (strip py ((kept.reverse.dropWhile fun c => c ∈ [' ', '-', '(']).reverse))
  | none => String.ofList (strip py (stripVersionSuffix py name))

end Names

structure S1Site where
  id : Nat
  name : Option String := none
  state : Option String := none
  siteType : Option String := none
  accountId : Option String := none
  accountName : Option String := none

structure S1Group where
  id : Nat
  siteId : Option String := none
  name : Option String := none
  description : Option String := none
  type : Option String := none
  isDefault : Option Bool := none
  filterName : Option String := none
  totalAgents : Option Nat := none
  createdAt : Option String := none
  updatedAt : Nat := 0

structure S1Interface where
  inet : Option String
  inet6 : List String

/-- A tag: an object with its `str`, or a string. -/
inductive S1TagItem where
  | object (key : Option String) (text : String)
  | string (text : String)

/-- Lists by source, or one list. -/
inductive S1AgentTags where
  | bySource (lists : List (List S1TagItem))
  | list (items : List S1TagItem)

structure S1Agent where
  id : Nat
  updatedAt : Nat := 0
  groupId : Option String := none
  groupName : Option String := none
  siteId : Option String := none
  siteName : Option String := none
  computerName : Option String := none
  osName : Option String := none
  osRevision : Option String := none
  osType : Option String := none
  networkInterfaces : List S1Interface := []
  tags : S1AgentTags := .list []
  networkStatus : Option String := none
  lastActiveDate : Option String := none
  agentVersion : Option String := none
  machineType : Option String := none
  domain : Option String := none

/-- The id is missing, or empty, in some records. -/
structure S1App where
  id : Option Nat
  agentId : Option String := none
  name : Option String := none
  version : Option String := none
  publisher : Option String := none
  size : Option Nat := none
  installedAt : Option String := none
  osType : Option String := none
  type : Option String := none
  riskLevel : Option String := none
  updatedAt : Option String := none
  createdAt : Option String := none

structure S1Tag where
  id : Nat
  key : Option String := none
  value : Option String := none
  description : Option String := none
  type : Option String := none
  scopeLevel : Option String := none
  scopeId : Option String := none
  scopePath : Option String := none
  createdBy : Option String := none
  totalEndpoints : Option Nat := none
  createdAt : Option String := none
  updatedAt : Option String := none

def sentinelone : String := "sentinelone"

section Normalize

open Auth

variable (py : Python)

def normalizeSite (s1Site : S1Site) : SiteDoc where
  id := canonicalId py sentinelone ("site:" ++ toString s1Site.id)
  source := some sentinelone
  sourceId := toString s1Site.id
  name := s1Site.name.getD ""
  state := s1Site.state.getD ""
  siteType := s1Site.siteType.getD ""
  accountId := s1Site.accountId.getD ""
  accountName := s1Site.accountName.getD ""

/-- A mapping built from documents: of two entries with one key the later counts. -/
def nameMap {δ : Type} (sourceId name : δ → String) (docs : List δ) (id : String) :
    Option String :=
  (docs.reverse.find? fun d => sourceId d == id).map name

def normalizeGroup (s1Group : S1Group) (siteNameMap : String → Option String) : GroupDoc where
  id := canonicalId py sentinelone ("group:" ++ toString s1Group.id)
  source := some sentinelone
  sourceId := toString s1Group.id
  name := s1Group.name.getD ""
  description := present s1Group.description
  type := s1Group.type.getD ""
  isDefault := s1Group.isDefault.getD false
  filterName := present s1Group.filterName
  agentCount := s1Group.totalAgents.getD 0
  siteId := s1Group.siteId.getD ""
  siteName := (siteNameMap (s1Group.siteId.getD "")).getD ""
  createdAt := present s1Group.createdAt
  updatedAt := some (py.isoformat s1Group.updatedAt)

def normalizeStatus (networkStatus : Option String) : String :=
  match py.lower ((present networkStatus).getD "unknown") with
  | "connected" => "online"
  | "disconnected" => "offline"
  | _ => "offline"

def S1AgentTags.normalize : S1AgentTags → List String
  | .bySource lists =>
    lists.flatten.filterMap fun
      | .object _ text => some text
      | .string text => present (some text)
  | .list items =>
    items.filterMap fun
      | .object key _ => some (key.getD "")
      | .string text => present (some text)

def normalizeAgent (s1Agent : S1Agent) (groupNameMap : String → Option String) : AgentDoc where
  id := canonicalId py sentinelone ("agent:" ++ toString s1Agent.id)
  source := some sentinelone
  sourceId := toString s1Agent.id
  hostname := s1Agent.computerName.getD (toString s1Agent.id)
  osType := py.lower ((present s1Agent.osType).getD "unknown")
  osVersion :=
    match present s1Agent.osRevision with
    | some osRevision =>
      String.ofList (strip py (s1Agent.osName.getD "" ++ " " ++ osRevision).toList)
    | none => s1Agent.osName.getD ""
  groupId := s1Agent.groupId.getD ""
  groupName := (groupNameMap (s1Agent.groupId.getD "")).getD (s1Agent.groupName.getD "")
  siteId := s1Agent.siteId.getD ""
  siteName := s1Agent.siteName.getD ""
  agentStatus := normalizeStatus py s1Agent.networkStatus
  lastActive := (present s1Agent.lastActiveDate).getD (py.isoformat s1Agent.updatedAt)
  machineType := py.lower ((present s1Agent.machineType).getD "unknown")
  domain := s1Agent.domain
  ipAddresses := s1Agent.networkInterfaces.flatMap fun iface =>
    (present iface.inet).toList ++ iface.inet6.filter fun ip => ip != ""
  tags := s1Agent.tags.normalize

def normalizeTag (s1Tag : S1Tag) (syncedAt : Nat) : TagDoc where
  id := canonicalId py sentinelone ("tag:" ++ toString s1Tag.id)
  source := some sentinelone
  sourceId := toString s1Tag.id
  name := s1Tag.key.getD ""
  value := present s1Tag.value
  description := present s1Tag.description
  type := s1Tag.type.getD ""
  scope := s1Tag.scopeLevel.getD ""
  scopeId := present s1Tag.scopeId
  scopePath := present s1Tag.scopePath
  creator := present s1Tag.createdBy
  totalEndpoints := s1Tag.totalEndpoints.getD 0
  createdAt := present s1Tag.createdAt
  updatedAt := present s1Tag.updatedAt
  syncedAt := some syncedAt

def S1App.idText (s1App : S1App) : String := (s1App.id.map toString).getD ""

def normalizeApp (s1App : S1App) (syncedAt : Nat) : AppDoc where
  id := canonicalId py sentinelone ("app:" ++ s1App.idText)
  source := some sentinelone
  sourceId := s1App.idText
  agentId := s1App.agentId.getD ""
  name := s1App.name.getD ""
  normalizedName := normalizeAppName py (s1App.name.getD "") (s1App.version.getD "")
  version := s1App.version
  publisher := s1App.publisher
  size := s1App.size
  installedAt := s1App.installedAt
  osType := s1App.osType
  appType := s1App.type
  riskLevel := s1App.riskLevel
  sourceUpdatedAt := s1App.updatedAt
  sourceCreatedAt := s1App.createdAt
  syncedAt := some syncedAt
  lastSyncedAt := some syncedAt
  active := some true

end Normalize

theorem toString_nat_injective {m n : Nat} (h : toString m = toString n) : m = n := by
  have hdigits : Nat.toDigits 10 m = Nat.toDigits 10 n := by
    simpa [toString, Nat.repr] using congrArg String.toList h
  have hvalue := congrArg (fun cs => Nat.ofDigitChars 10 cs 0) hdigits
  simpa using hvalue

/-- The functions on ASCII text, and identities that can be read. -/
def plainPython : Python where
  uuid5 name := "uuid:" ++ name
  lower := Auth.lower
  nfkd name := name
  combining _ := false
  isSpace c := c.isWhitespace
  isDecimal c := c.isDigit
  isoformat t := toString t

end Sentora.Sync
