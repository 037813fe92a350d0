import Sentora.Agents.AppLists
import Sentora.Agents.Coherence
import Sentora.ApiKeys.RateLimits
import Sentora.ApiKeys.Revocation
import Sentora.Audit.Agreement
import Sentora.Audit.Concurrent
import Sentora.Audit.EpochTamper
import Sentora.Audit.Export
import Sentora.Audit.Log
import Sentora.Audit.Recovery
import Sentora.Audit.Restart
import Sentora.Audit.Storage
import Sentora.Auth.Administrators
import Sentora.Auth.FirstUser
import Sentora.Auth.Hierarchy
import Sentora.Auth.LifeCycle
import Sentora.Auth.Lockout
import Sentora.Auth.Passwords
import Sentora.Auth.Provisioning
import Sentora.Auth.SingleUse
import Sentora.Backup.Checksum
import Sentora.Backup.Newest
import Sentora.Backup.Restores
import Sentora.Classification.Blocking
import Sentora.Classification.Order
import Sentora.Compliance.AppVersions
import Sentora.Compliance.Dashboard
import Sentora.Compliance.Deduplication
import Sentora.Compliance.EndOfLife
import Sentora.Compliance.Freshness
import Sentora.Compliance.NewSoftware
import Sentora.Compliance.Presence
import Sentora.Compliance.Prohibited
import Sentora.Compliance.StoredAgents
import Sentora.Compliance.Unified
import Sentora.CrowdStrike.FullAgents
import Sentora.CrowdStrike.FullApps
import Sentora.CrowdStrike.Groups
import Sentora.Enforcement.Counts
import Sentora.Enforcement.Events
import Sentora.Eol.CpeIdentity
import Sentora.Eol.DirectNames
import Sentora.Eol.MostSpecific
import Sentora.Export.Pages
import Sentora.Fingerprints.Idempotence
import Sentora.Fingerprints.Proposals
import Sentora.Fingerprints.Reordering
import Sentora.Library.Curation
import Sentora.Library.Drift
import Sentora.Library.Mirror
import Sentora.Library.Resumption
import Sentora.Limits.Middleware
import Sentora.Sync.AppNames
import Sentora.Sync.Cursors
import Sentora.Sync.Delivery
import Sentora.Sync.Distances
import Sentora.Sync.NameForms
import Sentora.Sync.StartUp
import Sentora.Sync.SundaySyncs
import Sentora.Tags.Apply
import Sentora.Taxonomy.Preview
import Sentora.Tenancy.Identity
import Sentora.Tenancy.Logout
import Sentora.Tenancy.Suspension
import Sentora.Webhooks.AutoDisable
import Sentora.Webhooks.Pinning
