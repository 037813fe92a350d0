import Mathlib.Data.Rat.Defs

/-!
# Release cycles

The release cycles of products, and the lifecycle of a version
(`extract_cycle_match` and `compute_eol_match` of `domains/eol/matching.py`, and
`get_all_products_with_cycles` of `domains/eol/repository.py`).  Dates are counted in
days.
-/

namespace Sentora.Eol

structure EOLCycle where
  cycle : String
  supportEnd : Option Nat := none
  eolDate : Option Nat := none
  isEol : Bool := false
  isSecurityOnly : Bool := false
deriving DecidableEq

/-- A cycle of a document of `eol_products`. -/
structure CycleDoc where
  cycle : String
  supportEnd : Option Nat := none
  eolDate : Option Nat := none
deriving DecidableEq

structure ProductDoc where
  productId : String
  name : Option String := none
  cycles : List CycleDoc := []
deriving DecidableEq

def past (date : Option Nat) (today : Nat) : Bool := date.any fun d => d < today

def securityOnly (supportEnd eolDate : Option Nat) (today : Nat) : Bool :=
  past supportEnd today && !past eolDate today

def CycleDoc.load (today : Nat) (c : CycleDoc) : EOLCycle where
  cycle := c.cycle
  supportEnd := c.supportEnd
  eolDate := c.eolDate
  isEol := past c.eolDate today
  isSecurityOnly := securityOnly c.supportEnd c.eolDate today

abbrev Products := List (String × List EOLCycle)

def getAllProductsWithCycles (products : List ProductDoc) (today : Nat) : Products :=
  products.map fun doc => (doc.productId, doc.cycles.map (CycleDoc.load today))

def digits (isDecimal : Char → Bool) (cs : List Char) : List Char := cs.takeWhile isDecimal

/-- The parts of `(?:\.\d+)*`, each with a dot before it. -/
def moreParts (isDecimal : Char → Bool) : Nat → List Char → List String
  | fuel + 1, '.' :: rest =>
    let part := digits isDecimal rest
    if part.isEmpty then []
    else String.ofList part :: moreParts isDecimal fuel (rest.drop part.length)
  | _, _ => []

/-- `_VERSION_RE.search`, and the parts of what it finds. -/
def versionParts (isDecimal : Char → Bool) (cs : List Char) : List String :=
  match cs with
  | [] => []
  | c :: rest =>
    if isDecimal c then
      let part := digits isDecimal (c :: rest)
      String.ofList part :: moreParts isDecimal rest.length ((c :: rest).drop part.length)
    else versionParts isDecimal rest

def cycleNamed (cycles : List EOLCycle) (id : String) : Option EOLCycle :=
  cycles.reverse.find? fun c => c.cycle == id

def versionPrefixes (parts : List String) : List String :=
  ((List.range parts.length).map fun i => ".".intercalate (parts.take (i + 1))).reverse

def extractCycleMatch (isDecimal : Char → Bool) (versionString : String)
    (cycles : List EOLCycle) : Option EOLCycle :=
  let parts := versionParts isDecimal versionString.toList
  match (versionPrefixes parts).findSome? (cycleNamed cycles) with
  | some cycle => some cycle
  | none =>
    match parts with
    | year :: _ => if year.length = 4 then cycleNamed cycles year else none
    | [] => none

theorem mem_of_cycleNamed {cycles : List EOLCycle} {id : String} {c : EOLCycle}
    (h : cycleNamed cycles id = some c) : c ∈ cycles :=
  List.mem_reverse.mp (List.mem_of_find?_eq_some h)

theorem mem_of_extractCycleMatch {isDecimal : Char → Bool} {version : String}
    {cycles : List EOLCycle} {c : EOLCycle}
    (h : extractCycleMatch isDecimal version cycles = some c) : c ∈ cycles := by
  unfold extractCycleMatch at h
  dsimp only at h
  split at h
  · rename_i found hfound
    obtain ⟨id, -, hid⟩ := List.exists_of_findSome?_eq_some hfound
    rw [← Option.some.inj h]
    exact mem_of_cycleNamed hid
  · split at h
    · split at h
      · exact mem_of_cycleNamed h
      · cases h
    · cases h

theorem extractCycleMatch_empty (isDecimal : Char → Bool) (cycles : List EOLCycle) :
    extractCycleMatch isDecimal "" cycles = none := rfl

inductive MatchSource where
  | cpe
  | fuzzy
  | manual
deriving DecidableEq

structure EOLMatch where
  eolProductId : String
  matchedCycle : String
  matchSource : MatchSource
  matchConfidence : Rat
  isEol : Bool
  eolDate : Option Nat := none
  isSecurityOnly : Bool := false
  supportEnd : Option Nat := none
deriving DecidableEq

def computeEolMatch (isDecimal : Char → Bool) (eolProductId versionString : String)
    (cycles : List EOLCycle) (matchSource : MatchSource) (matchConfidence : Rat)
    (referenceDate : Nat) : Option EOLMatch :=
  (extractCycleMatch isDecimal versionString cycles).map fun cycle =>
    { eolProductId, matchedCycle := cycle.cycle, matchSource, matchConfidence
      isEol := past cycle.eolDate referenceDate
      eolDate := cycle.eolDate
      isSecurityOnly := securityOnly cycle.supportEnd cycle.eolDate referenceDate
      supportEnd := cycle.supportEnd }

/-- `eol_match` of an app summary.  No service writes the fields of the lifecycle. -/
structure EolMatchDoc where
  eolProductId : String
  matchSource : MatchSource
  matchConfidence : Rat
  matchedCycle : Option String := none
  isEol : Option Bool := none
  eolDate : Option Nat := none
  isSecurityOnly : Option Bool := none
  supportEnd : Option Nat := none
deriving DecidableEq

end Sentora.Eol
