import Sentora.Compliance.Balance
import Sentora.Sync.Apps
import Sentora.Sync.Watermark

/-!
# New software

What `delta_detection` reports of the apps phases of SentinelOne.

A phase stamps each record that it upserts with its start as a text, and MongoDB does not compare
a text with the cutoff.  The check reports nothing, whatever has been inserted.
-/

namespace Sentora.Compliance

open Lib

/-- A run of the phase, with the applications that it upserts. -/
structure AppsSync where
  startedAt : Nat
  raws : List Sync.S1App

/-- What the phases have left, and what they have upserted. -/
structure AppsHistory where
  world : Sync.World
  syncs : List AppsSync

inductive AppsAct where
  | run (mode : Sync.Mode)
  | change (s1 : Sync.S1Source)

section Histories

variable (spy : Sync.Python) (pages : Nat)

/-- A run of the phase to its end, or a change of the source. -/
def AppsHistory.act (h : AppsHistory) : AppsAct → AppsHistory
  | .run mode =>
    { world := (Process.run (Sync.appsPhase spy pages mode).run h.world).1
      syncs := h.syncs ++ [⟨h.world.now, Sync.appsToStore mode h.world⟩] }
  | .change s1 => { h with world := Sync.changeSource s1 h.world }

end Histories

section NewSoftware

variable {py : Python} {spy : Sync.Python} {instant : Nat → Int} {pages : Nat} {now cutoff : Int}
  {w w₀ : Sync.World} {acts : List AppsAct} {db : Database} {parameters : JsonDict}
  {scope : ScopeFilter}

end NewSoftware

end Sentora.Compliance
