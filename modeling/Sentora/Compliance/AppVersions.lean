import Sentora.Compliance.Balance
import Sentora.Lib.Components

/-!
# Outdated versions

Which installations `app_version` flags, against those with a lower version than the baseline.

The check takes the most common version of all records, deactivated ones as well, for the
standard of an app, reads no `version_map`, and flags every other version.
-/

namespace Sentora.Compliance

open Lib

def below (base : String → Option String) (r : AppDoc) : Prop :=
  ∃ version minVersion, r.version = some version ∧ base r.normalizedName = some minVersion ∧
    Lower (components version) (components minVersion)

/-- Two records of one agent, app and version. -/
structure SameInstall (r s : AppDoc) : Prop where
  agentId : r.agentId = s.agentId
  normalizedName : r.normalizedName = s.normalizedName
  version : r.version = s.version

section Specification

variable (py : Python) (now : Int) (db : Database) (parameters : JsonDict) (scope : ScopeFilter)

end Specification

section Flagged

variable {py : Python} {now : Int} {db : Database} {parameters : JsonDict} {scope : ScopeFilter}
  {base : String → Option String} {r s : AppDoc} {v : ComplianceViolation}

theorem below.same (h : below base r) (hsame : SameInstall r s) : below base s := by
  obtain ⟨version, minVersion, hversion, hmin, hlower⟩ := h
  exact ⟨version, minVersion, hsame.version ▸ hversion, hsame.normalizedName ▸ hmin, hlower⟩

theorem Names.same (h : Names v r) (hsame : SameInstall r s) : Names v s :=
  ⟨h.agentId.trans hsame.agentId, by rw [h.appName, hsame.normalizedName],
    h.appVersion.trans hsame.version⟩

end Flagged

end Sentora.Compliance
