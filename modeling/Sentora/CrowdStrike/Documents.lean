import Sentora.Sync.Documents

/-!
# CrowdStrike documents

The normalisation of what the CrowdStrike API returns
(`domains/sources/crowdstrike/normalizer.py`).
-/

namespace Sentora.CrowdStrike

open Lib Sync Auth

def crowdstrike : String := "crowdstrike"

structure CsHost where
  deviceId : String
  modifiedTimestamp : Nat := 0
  hostname : Option String := none
  localIp : Option String := none
  externalIp : Option String := none
  macAddress : Option String := none
  groups : List String := []
  tags : List String := []
  platformName : Option String := none
  osVersion : Option String := none
  siteName : Option String := none
  status : Option String := none
  agentVersion : Option String := none
  lastSeen : Option String := none
  firstSeenTimestamp : Option String := none
  productTypeDesc : Option String := none
  machineDomain : Option String := none
  ou : Option String := none
  systemManufacturer : Option String := none
  systemProductName : Option String := none
  platformId : Option String := none
  provisionStatus : Option String := none

structure CsApp where
  id : String
  lastUpdatedTimestamp : Nat := 0
  hostAid : Option String := none
  hostPlatformName : Option String := none
  aid : Option String := none
  name : Option String := none
  version : Option String := none
  vendor : Option String := none
  category : Option String := none
  installationTimestamp : Option String := none

structure CsGroup where
  id : String
  name : Option String := none
  description : Option String := none
  groupType : Option String := none
  assignmentRule : Option String := none
  createdTimestamp : Option String := none
  modifiedTimestamp : Option String := none

section Normalize

variable (py : Python)

def normalizeOsType (csPlatform : String) : String :=
  match py.lower csPlatform with
  | "windows" => "windows"
  | "linux" => "linux"
  | "mac" => "macos"
  | "" => "unknown"
  | other => other

def normalizeStatus (csStatus : String) : String :=
  let lower := if csStatus = "" then "" else py.lower csStatus
  if lower = "normal" then "online"
  else if lower ∈ ["contained", "containment_pending", "lift_containment_pending"] then "contained"
  else "offline"

def contains (part text : String) : Bool :=
  text.toList.tails.any fun rest => part.toList.isPrefixOf rest

def normalizeMachineType (productTypeDesc : String) : String :=
  let lower := if productTypeDesc = "" then "" else py.lower productTypeDesc
  if contains "server" lower then "server"
  else if ["workstation", "desktop", "laptop"].any fun part => contains part lower then "desktop"
  else "unknown"

def normalizeHost (csHost : CsHost) (groupNameMap : String → Option String) : AgentDoc where
  id := canonicalId py crowdstrike ("agent:" ++ csHost.deviceId)
  source := some crowdstrike
  sourceId := csHost.deviceId
  hostname := csHost.hostname.getD csHost.deviceId
  osType := normalizeOsType py (csHost.platformName.getD "")
  osVersion := csHost.osVersion.getD ""
  groupId := csHost.groups.head?.getD ""
  groupName := ((present csHost.groups.head?).bind groupNameMap).getD ""
  siteId := ""
  siteName := csHost.siteName.getD ""
  agentStatus := normalizeStatus py (csHost.status.getD "")
  agentVersion := some (csHost.agentVersion.getD "")
  lastActive := (present csHost.lastSeen).getD (py.isoformat csHost.modifiedTimestamp)
  firstSeen := some (csHost.firstSeenTimestamp.getD "")
  machineType := normalizeMachineType py (csHost.productTypeDesc.getD "")
  domain := present csHost.machineDomain
  ipAddresses :=
    (present csHost.localIp).toList ++
      ((present csHost.externalIp).filter fun ip => ip ≠ csHost.localIp.getD "").toList
  macAddresses := some (present csHost.macAddress).toList
  groups := some (csHost.groups.map fun gid => (groupNameMap gid).getD gid)
  tags := csHost.tags
  sourceMetadata := some {
    ou := present csHost.ou
    systemManufacturer := present csHost.systemManufacturer
    systemProductName := present csHost.systemProductName
    platformId := present csHost.platformId
    provisionStatus := present csHost.provisionStatus
    externalIp := present csHost.externalIp }

def normalizeApplication (csApp : CsApp) (syncedAt : Nat) : AppDoc where
  id := canonicalId py crowdstrike ("app:" ++ csApp.id)
  source := some crowdstrike
  sourceId := csApp.id
  agentId := (present csApp.hostAid).getD (csApp.aid.getD "")
  name := csApp.name.getD ""
  normalizedName := normalizeAppName py (csApp.name.getD "") (csApp.version.getD "")
  version := present csApp.version
  publisher := present csApp.vendor
  size := none
  installedAt := present csApp.installationTimestamp
  osType := some (normalizeOsType py (csApp.hostPlatformName.getD ""))
  appType := present csApp.category
  riskLevel := none
  sourceUpdatedAt := some (py.isoformat csApp.lastUpdatedTimestamp)
  sourceCreatedAt := present csApp.installationTimestamp
  syncedAt := some syncedAt
  lastSyncedAt := some syncedAt
  active := some true

def normalizeGroup (csGroup : CsGroup) : GroupDoc where
  id := canonicalId py crowdstrike ("group:" ++ csGroup.id)
  source := some crowdstrike
  sourceId := csGroup.id
  name := csGroup.name.getD ""
  description := present csGroup.description
  type := csGroup.groupType.getD ""
  isDefault := false
  filterName := present csGroup.assignmentRule
  agentCount := 0
  siteId := ""
  siteName := ""
  createdAt := present csGroup.createdTimestamp
  updatedAt := present csGroup.modifiedTimestamp

end Normalize

end Sentora.CrowdStrike
