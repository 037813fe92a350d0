import Sentora.Values

/-!
# Hash computation for audit entries

The module `audit/chain/hasher.py`, which the air-gapped verifier carries as a
verbatim copy, so that one embedding serves both sides.

A document of `audit_log` is a record with the keys the chain code reads, each
of them possibly missing, and whatever other keys it has.  `sequence` and
`epoch` are integers where they are present.
-/

namespace Sentora.Audit

open Lib

/-- A document of `audit_log`.  `oid` is the `_id`, which the chain queries
project away. -/
structure Doc where
  oid : Nat
  sequence : Option Int
  epoch : Option Int
  timestamp : Option Val
  domain : Option Val
  action : Option Val
  actor : Option Val
  status : Option Val
  summary : Option Val
  details : Option Val
  tenantId : Option Val
  previousHash : Option Val
  isEpochStart : Option Val
  isEpochEnd : Option Val
  previousEpochHash : Option Val
  hash : Option Val
  extra : List (String × Val)

/-- `entry.get(key)`. -/
def get (v : Option Val) : Val := v.getD .none

/-- `entry.get(key, default)`. -/
def getOr (v : Option Val) (d : Val) : Val := v.getD d

namespace Doc

def field (key : String) (v : Option Val) : List (String × Val) :=
  match v with
  | none => []
  | some v => [(key, v)]

/-- The document as a dict, without its `_id`. -/
def toDict (d : Doc) : List (String × Val) :=
  field "sequence" (d.sequence.map .int) ++ field "epoch" (d.epoch.map .int) ++
  field "timestamp" d.timestamp ++ field "domain" d.domain ++ field "action" d.action ++
  field "actor" d.actor ++ field "status" d.status ++ field "summary" d.summary ++
  field "details" d.details ++ field "tenant_id" d.tenantId ++
  field "previous_hash" d.previousHash ++ field "is_epoch_start" d.isEpochStart ++
  field "is_epoch_end" d.isEpochEnd ++ field "previous_epoch_hash" d.previousEpochHash ++
  field "hash" d.hash ++ d.extra

/-- One change of representation applied to every value. -/
def mapVals (f : Val → Val) (d : Doc) : Doc :=
  { oid := d.oid, sequence := d.sequence, epoch := d.epoch
    timestamp := d.timestamp.map f, domain := d.domain.map f, action := d.action.map f
    actor := d.actor.map f, status := d.status.map f, summary := d.summary.map f
    details := d.details.map f, tenantId := d.tenantId.map f
    previousHash := d.previousHash.map f, isEpochStart := d.isEpochStart.map f
    isEpochEnd := d.isEpochEnd.map f, previousEpochHash := d.previousEpochHash.map f
    hash := d.hash.map f, extra := d.extra.map (fun kv => (kv.1, f kv.2)) }

/-- The document as MongoDB gives it back. -/
def stored (d : Doc) : Doc := d.mapVals Val.stored

/-- The document after `json.dumps(..., default=str)` and `json.load`. -/
def reloaded (d : Doc) : Doc := d.mapVals Val.reloaded

end Doc

/-- `sha256` is `hashlib.sha256(text.encode("utf-8")).hexdigest()`.
`strContainer` is `str` of a list or a dict. -/
structure Runtime where
  sha256 : String → String
  strContainer : Val → String

/-- What is assumed of SHA-256 where a result rests on it. -/
structure Runtime.CollisionFree (rt : Runtime) : Prop where
  injective : Function.Injective rt.sha256
  ne_empty : ∀ text, rt.sha256 text ≠ ""
  ne_genesis : ∀ text, rt.sha256 text ≠ "GENESIS"

def Runtime.tagged : Runtime := ⟨fun text => "h" ++ text, fun _ => ""⟩

theorem Runtime.tagged_toList (text : String) :
    (Runtime.tagged.sha256 text).toList = 'h' :: text.toList := by
  show ("h" ++ text).toList = _
  rw [String.toList_append]
  rfl

theorem Runtime.tagged_collisionFree : Runtime.tagged.CollisionFree := by
  constructor
  · intro a b h
    have hl := congrArg String.toList h
    rw [tagged_toList, tagged_toList] at hl
    exact String.toList_inj.mp (List.cons.inj hl).2
  · intro text h
    have hl := congrArg String.toList h
    rw [tagged_toList] at hl
    cases hl
  · intro text h
    have hl := congrArg String.toList h
    rw [tagged_toList] at hl
    exact absurd (List.cons.inj hl).1 (by decide)

/-- `str(v)`. -/
def pyStr (rt : Runtime) : Val → String
  | .none => "None"
  | .bool b => if b then "True" else "False"
  | .int i => Int.repr i
  | .float x =>
    if x.text = "NaN" then "nan" else if x.text = "Infinity" then "inf"
    else if x.text = "-Infinity" then "-inf" else x.text
  | .str s => s
  | .date t => t.str
  | .list xs => rt.strContainer (.list xs)
  | .dict kvs => rt.strContainer (.dict kvs)
  | .other text => text

/-- `%Y-%m-%dT%H:%M:%S.` and the milliseconds, with a trailing `Z`. -/
def strftimeMillis (t : DateTime) : String :=
  String.ofList (t.dateText ++ 'T' :: (t.clockText ++
    '.' :: (pad 3 (t.microsecond / 1000) ++ ['Z'])))

/-- A directive of a `strptime` format. -/
inductive Directive where
  | year | month | day | hour | minute | second | fraction | offset
  | lit (c : Char)

def natOfDigits (ds : List Char) : Nat := Nat.ofDigitChars 10 ds 0

/-- A run of one or two digits with a value between `lo` and `hi`. -/
def twoDigits (lo hi : Nat) (cs : List Char) : Option (Nat × List Char) :=
  let (ds, rest) := cs.span Char.isDigit
  let n := natOfDigits ds
  if 1 ≤ ds.length ∧ ds.length ≤ 2 ∧ lo ≤ n ∧ n ≤ hi then some (n, rest) else none

/-- `%z`: `Z`, or a sign and `HH[:]MM[[:]SS[.ffffff]]` with the colons used alike. -/
def parseOffset : List Char → Option (Int × List Char)
  | 'Z' :: rest => some (0, rest)
  | sign :: cs =>
    if sign ≠ '+' ∧ sign ≠ '-' then none else
    let value (h m s : Nat) : Option Int :=
      if m < 60 ∧ s < 60 ∧ h < 24 then
        let n : Int := h * 3600 + m * 60 + s
        some (if sign = '-' then -n else n)
      else none
    let digits (n : Nat) (cs : List Char) : Option (Nat × List Char) :=
      if n ≤ cs.length ∧ (cs.take n).all Char.isDigit then
        some (natOfDigits (cs.take n), cs.drop n) else none
    let fraction (cs : List Char) : List Char :=
      match cs with
      | '.' :: rest =>
        let ds := (rest.takeWhile Char.isDigit).take 6
        if ds.isEmpty then cs else rest.drop ds.length
      | _ => cs
    match digits 2 cs with
    | none => none
    | some (h, ':' :: cs) =>
      match digits 2 cs with
      | none => none
      | some (m, ':' :: cs') =>
        match digits 2 cs' with
        | some (s, rest) => (value h m s).map (·, fraction rest)
        | none => (value h m 0).map (·, ':' :: cs')
      | some (m, rest) => (value h m 0).map (·, rest)
    | some (h, cs) =>
      match digits 2 cs with
      | none => none
      | some (m, cs') =>
        match digits 2 cs' with
        | some (s, rest) => (value h m s).map (·, fraction rest)
        | none => (value h m 0).map (·, cs')
  | [] => none

/-- One directive.  A letter of the format matches either case. -/
def parseDirective (dir : Directive) (t : DateTime) (cs : List Char) :
    Option (DateTime × List Char) :=
  match dir with
  | .year =>
    let (ds, rest) := cs.span Char.isDigit
    if ds.length = 4 then some ({ t with year := natOfDigits ds }, rest) else none
  | .month => (twoDigits 1 12 cs).map fun (n, rest) => ({ t with month := n }, rest)
  | .day =>
    match cs with
    | ' ' :: c :: rest =>
      (twoDigits 1 9 (c :: rest)).map fun (n, rest) => ({ t with day := n }, rest)
    | cs => (twoDigits 1 31 cs).map fun (n, rest) => ({ t with day := n }, rest)
  | .hour => (twoDigits 0 23 cs).map fun (n, rest) => ({ t with hour := n }, rest)
  | .minute => (twoDigits 0 59 cs).map fun (n, rest) => ({ t with minute := n }, rest)
  | .second => (twoDigits 0 61 cs).map fun (n, rest) => ({ t with second := n }, rest)
  | .fraction =>
    let (ds, rest) := cs.span Char.isDigit
    if 1 ≤ ds.length ∧ ds.length ≤ 6 then
      some ({ t with microsecond := natOfDigits ds * 10 ^ (6 - ds.length) }, rest)
    else none
  | .offset => (parseOffset cs).map fun (o, rest) => ({ t with tz := some o }, rest)
  | .lit c =>
    match cs with
    | [] => none
    | d :: rest => if d.toLower = c.toLower then some (t, rest) else none

def isLeap (y : Nat) : Bool := y % 4 == 0 && (y % 100 != 0 || y % 400 == 0)

def daysInMonth (y m : Nat) : Nat :=
  if m = 2 then (if isLeap y then 29 else 28)
  else if m = 4 ∨ m = 6 ∨ m = 9 ∨ m = 11 then 30 else 31

/-- `datetime.strptime(s, format)`, `none` for a `ValueError`. -/
def strptime (format : List Directive) (s : List Char) : Option DateTime :=
  let start : DateTime := ⟨1900, 1, 1, 0, 0, 0, 0, none⟩
  let parsed := format.foldl
    (fun acc dir => acc.bind fun (t, cs) => parseDirective dir t cs) (some (start, s))
  match parsed with
  | some (t, []) =>
    if 1 ≤ t.year ∧ t.day ≤ daysInMonth t.year t.month ∧ t.second < 60 then some t else none
  | _ => none

def dateFormat : List Directive :=
  [.year, .lit '-', .month, .lit '-', .day, .lit 'T', .hour, .lit ':', .minute, .lit ':', .second]

/-- The formats `_normalize_timestamp` tries, in its order. -/
def timestampFormats : List (List Directive) :=
  [dateFormat ++ [.lit '.', .fraction, .offset],
   dateFormat ++ [.offset],
   dateFormat ++ [.lit '.', .fraction, .lit 'Z'],
   dateFormat ++ [.lit '.', .fraction],
   dateFormat ++ [.lit 'Z'],
   dateFormat]

def normalizeTimestamp (rt : Runtime) (ts : Val) : String :=
  match ts with
  | .date t => strftimeMillis t
  | ts =>
    let s := pyStr rt ts
    match timestampFormats.findSome? (fun format => strptime format s.toList) with
    | some t => strftimeMillis t
    | none => s

def genesisSentinel : String := "GENESIS"

def chainAlgorithm : String := "SHA-256"

inductive ChainError where
  | keyError (key : String)
  | typeError
  | notInitialized
  | epochNotFound (epoch : Int)
  | epochNotComplete (epoch : Int) (entriesSoFar : Nat)
  | integrity (sequence : Int)
deriving DecidableEq

def buildHashable (rt : Runtime) (entry : Doc) (previousHash : Val) :
    Except ChainError (List (String × Val)) :=
  let timestamp := normalizeTimestamp rt (get entry.timestamp)
  match entry.sequence, entry.epoch with
  | none, _ => .error (.keyError "sequence")
  | some _, none => .error (.keyError "epoch")
  | some sequence, some epoch => .ok [
      ("sequence", .int sequence),
      ("epoch", .int epoch),
      ("timestamp", .str timestamp),
      ("domain", getOr entry.domain (.str "")),
      ("action", getOr entry.action (.str "")),
      ("actor", getOr entry.actor (.str "")),
      ("status", getOr entry.status (.str "")),
      ("summary", getOr entry.summary (.str "")),
      ("details", get entry.details),
      ("tenant_id", get entry.tenantId),
      ("previous_hash", previousHash.orElse (.str genesisSentinel))]

/-- `json.dumps(v, sort_keys=True, ensure_ascii=True, default=str)`. -/
def canonical (v : Val) : String := v.toJson.encode

def computeEntryHash (rt : Runtime) (entry : Doc) (previousHash : Val) :
    Except ChainError String :=
  (buildHashable rt entry previousHash).map fun hashable => rt.sha256 (canonical (.dict hashable))

/-- The digest of the canonical texts of the entries, one after the other. -/
def computeExportHash (rt : Runtime) (entries : List Doc) : String :=
  rt.sha256 (String.join (entries.map fun entry => canonical (.dict entry.toDict)))

/-- The fields of an entry as its hash sees them.  A missing text is the empty
one, a missing reference is the sentinel, and every other value counts in its
JSON form. -/
structure Covered where
  sequence : Option Int
  epoch : Option Int
  timestamp : String
  domain : Json
  action : Json
  actor : Json
  status : Json
  summary : Json
  details : Json
  tenantId : Json
  previousHash : Json

def covered (rt : Runtime) (d : Doc) (previousHash : Val) : Covered where
  sequence := d.sequence
  epoch := d.epoch
  timestamp := normalizeTimestamp rt (get d.timestamp)
  domain := (getOr d.domain (.str "")).toJson
  action := (getOr d.action (.str "")).toJson
  actor := (getOr d.actor (.str "")).toJson
  status := (getOr d.status (.str "")).toJson
  summary := (getOr d.summary (.str "")).toJson
  details := (get d.details).toJson
  tenantId := (get d.tenantId).toJson
  previousHash := (previousHash.orElse (.str genesisSentinel)).toJson

def Covered.members (c : Covered) (sequence epoch : Int) : List (String × Json) := [
  ("sequence", .int sequence), ("epoch", .int epoch), ("timestamp", .str c.timestamp),
  ("domain", c.domain), ("action", c.action), ("actor", c.actor), ("status", c.status),
  ("summary", c.summary), ("details", c.details), ("tenant_id", c.tenantId),
  ("previous_hash", c.previousHash)]

theorem computeEntryHash_eq {rt : Runtime} {d : Doc} {p : Val} {sequence epoch : Int}
    (hs : d.sequence = some sequence) (he : d.epoch = some epoch) :
    computeEntryHash rt d p = .ok (rt.sha256 (Json.encode
      (.obj (sortBy Prod.fst ((covered rt d p).members sequence epoch))))) := by
  simp only [computeEntryHash, buildHashable, hs, he, Except.map, canonical, Val.toJson,
    Val.toJsonMembers, Covered.members, covered]

theorem computeEntryHash_exists {rt : Runtime} {d : Doc} {p : Val} {n e : Int}
    (hs : d.sequence = some n) (he : d.epoch = some e) : ∃ h, computeEntryHash rt d p = .ok h :=
  ⟨_, computeEntryHash_eq hs he⟩

theorem computeEntryHash_ok {rt : Runtime} {d : Doc} {p : Val} {h : String}
    (hc : computeEntryHash rt d p = .ok h) :
    ∃ sequence epoch, d.sequence = some sequence ∧ d.epoch = some epoch := by
  rw [computeEntryHash, buildHashable] at hc
  cases hs : d.sequence with
  | none => simp [hs, Except.map] at hc
  | some sequence =>
    cases he : d.epoch with
    | none => simp [hs, he, Except.map] at hc
    | some epoch => exact ⟨sequence, epoch, rfl, rfl⟩

theorem computeEntryHash_congr {rt : Runtime} {d e : Doc} {p q : Val}
    (h : covered rt d p = covered rt e q) :
    computeEntryHash rt d p = computeEntryHash rt e q := by
  have hseq : d.sequence = e.sequence := congrArg Covered.sequence h
  have hepoch : d.epoch = e.epoch := congrArg Covered.epoch h
  cases hs : d.sequence with
  | none =>
    simp [computeEntryHash, buildHashable, ← hseq, hs]
  | some sequence =>
    cases he : d.epoch with
    | none => simp [computeEntryHash, buildHashable, ← hseq, ← hepoch, hs, he]
    | some epoch =>
      rw [computeEntryHash_eq hs he, h,
        computeEntryHash_eq (hseq ▸ hs : e.sequence = some sequence) (hepoch ▸ he)]

theorem Covered.ext_members {c c' : Covered} {s s' e e' : Int}
    (hperm : (c.members s e).Perm (c'.members s' e')) (hs : c.sequence = some s)
    (he : c.epoch = some e) (hs' : c'.sequence = some s') (he' : c'.epoch = some e') : c = c' := by
  have hmem : ∀ m, m ∈ c.members s e → m ∈ c'.members s' e' := fun m hm => hperm.subset hm
  simp only [Covered.members, List.mem_cons, List.not_mem_nil, or_false, forall_eq_or_imp,
    forall_eq] at hmem
  simp only [Prod.mk.injEq, String.reduceEq, false_and, or_false, false_or, true_and] at hmem
  obtain ⟨h1, h2, h3, h4, h5, h6, h7, h8, h9, h10, h11⟩ := hmem
  cases c
  cases c'
  simp_all

theorem covered_eq_of_computeEntryHash {rt : Runtime} (hrt : rt.CollisionFree) {d e : Doc}
    {p q : Val} {h : String} (hd : computeEntryHash rt d p = .ok h)
    (he : computeEntryHash rt e q = .ok h) : covered rt d p = covered rt e q := by
  obtain ⟨s, t, hs, ht⟩ := computeEntryHash_ok hd
  obtain ⟨s', t', hs', ht'⟩ := computeEntryHash_ok he
  rw [computeEntryHash_eq hs ht] at hd
  rw [computeEntryHash_eq hs' ht'] at he
  have htext := encode_injective (hrt.injective (Except.ok.inj (hd.trans he.symm)))
  have hsort := Json.obj.inj htext
  have hleft := perm_sortBy Prod.fst ((covered rt d p).members s t)
  have hright := perm_sortBy Prod.fst ((covered rt e q).members s' t')
  rw [hsort] at hleft
  exact Covered.ext_members (hleft.symm.trans hright) hs ht hs' ht'

end Sentora.Audit
