import Sentora.Lib.Json
import Sentora.Lib.RangeSort

/-!
# Values

The values of a document: what Python holds, what MongoDB gives back, and what
`json.dumps` writes.

`Val.toJson` is the form `json.dumps(..., sort_keys=True, default=str)` writes.
`Val.stored` is the value read back after it was written to MongoDB, and
`Val.reloaded` the one read back after `json.dumps(..., default=str)` and
`json.load`.
-/

namespace Sentora

open Lib

/-- A `datetime`: the clock it shows and, if it is aware, its offset from UTC in
seconds. -/
structure DateTime where
  year : Nat
  month : Nat
  day : Nat
  hour : Nat
  minute : Nat
  second : Nat
  microsecond : Nat
  tz : Option Int
deriving DecidableEq

def pad (width n : Nat) : List Char :=
  List.replicate (width - (Nat.toDigits 10 n).length) '0' ++ Nat.toDigits 10 n

namespace DateTime

def dateText (t : DateTime) : List Char :=
  pad 4 t.year ++ '-' :: (pad 2 t.month ++ '-' :: pad 2 t.day)

def clockText (t : DateTime) : List Char :=
  pad 2 t.hour ++ ':' :: (pad 2 t.minute ++ ':' :: pad 2 t.second)

def offsetText : Option Int → List Char
  | none => []
  | some o =>
    (if o < 0 then '-' else '+') ::
      (pad 2 (o.natAbs / 3600) ++ ':' :: (pad 2 (o.natAbs / 60 % 60) ++
        if o.natAbs % 60 = 0 then [] else ':' :: pad 2 (o.natAbs % 60)))

/-- `datetime.isoformat(sep)`. -/
def isoText (sep : Char) (t : DateTime) : List Char :=
  t.dateText ++ sep :: (t.clockText ++
    ((if t.microsecond = 0 then [] else '.' :: pad 6 t.microsecond) ++ offsetText t.tz))

def isoformat (t : DateTime) : String := String.ofList (t.isoText 'T')

/-- `str(datetime)`, which separates date and clock with a blank. -/
def str (t : DateTime) : String := String.ofList (t.isoText ' ')

def daysFromCivil (y m d : Int) : Int :=
  let y' := if m ≤ 2 then y - 1 else y
  let era := y' / 400
  let yoe := y' - era * 400
  let doy := (153 * (m + (if m > 2 then -3 else 9)) + 2) / 5 + d - 1
  era * 146097 + (yoe * 365 + yoe / 4 - yoe / 100 + doy) - 719468

def civilFromDays (z : Int) : Int × Int × Int :=
  let z' := z + 719468
  let era := z' / 146097
  let doe := z' - era * 146097
  let yoe := (doe - doe / 1460 + doe / 36524 - doe / 146096) / 365
  let doy := doe - (365 * yoe + yoe / 4 - yoe / 100)
  let mp := (5 * doy + 2) / 153
  let m := mp + (if mp < 10 then 3 else -9)
  (yoe + era * 400 + (if m ≤ 2 then 1 else 0), m, doy - (153 * mp + 2) / 5 + 1)

/-- The clock `n` seconds later, microseconds and offset kept. -/
def addSeconds (t : DateTime) (n : Int) : DateTime :=
  let s := daysFromCivil t.year t.month t.day * 86400 + t.hour * 3600 + t.minute * 60 + t.second + n
  let (y, m, d) := civilFromDays (s / 86400)
  let c := (s % 86400).toNat
  { t with
    year := y.toNat, month := m.toNat, day := d.toNat
    hour := c / 3600, minute := c / 60 % 60, second := c % 60 }

def utc (t : DateTime) : DateTime :=
  match t.tz with
  | none => t
  | some o => if o = 0 then t else t.addSeconds (-o)

/-- What MongoDB gives back: UTC, naive, cut to milliseconds. -/
def stored (t : DateTime) : DateTime :=
  { t.utc with microsecond := t.utc.microsecond / 1000 * 1000, tz := none }

end DateTime

/-- A Python value.  `other` is an object of any type that is neither a JSON type
nor a datetime, known by its `str`. -/
inductive Val where
  | none
  | bool (b : Bool)
  | int (i : Int)
  | float (x : FloatLit)
  | str (s : String)
  | date (t : DateTime)
  | list (xs : List Val)
  | dict (kvs : List (String × Val))
  | other (text : String)

namespace Val

mutual
/-- `==` where the code compares hashes: strings and `None`. -/
def beq : Val → Val → Bool
  | .none, .none => true
  | .bool a, .bool b => a == b
  | .int a, .int b => a == b
  | .float a, .float b => a == b
  | .str a, .str b => a == b
  | .date a, .date b => a == b
  | .list xs, .list ys => beqList xs ys
  | .dict xs, .dict ys => beqMembers xs ys
  | .other a, .other b => a == b
  | _, _ => false

def beqList : List Val → List Val → Bool
  | [], [] => true
  | x :: xs, y :: ys => x.beq y && beqList xs ys
  | _, _ => false

def beqMembers : List (String × Val) → List (String × Val) → Bool
  | [], [] => true
  | (k, x) :: xs, (l, y) :: ys => k == l && x.beq y && beqMembers xs ys
  | _, _ => false
end

instance : BEq Val := ⟨beq⟩

@[simp] theorem beq_none (v : Val) : (v == .none) = true ↔ v = .none := by
  change v.beq .none = true ↔ _
  cases v <;> simp [beq]

@[simp] theorem beq_str (v : Val) (s : String) : (v == .str s) = true ↔ v = .str s := by
  change v.beq (.str s) = true ↔ _
  cases v <;> simp [beq]

def truthy : Val → Bool
  | .none => false
  | .bool b => b
  | .int i => i != 0
  | .float x => x.text != "0.0" && x.text != "-0.0"
  | .str s => s != ""
  | .date _ => true
  | .list xs => !xs.isEmpty
  | .dict kvs => !kvs.isEmpty
  | .other _ => true

/-- `x or default`. -/
def orElse (v d : Val) : Val := if v.truthy then v else d

mutual
/-- `json.dumps(v, sort_keys=True, default=str)` as a tree. -/
def toJson : Val → Json
  | .none => .null
  | .bool b => .bool b
  | .int i => .int i
  | .float x => .float x
  | .str s => .str s
  | .date t => .str t.str
  | .list xs => .arr (toJsonList xs)
  | .dict kvs => .obj (sortBy Prod.fst (toJsonMembers kvs))
  | .other text => .str text

def toJsonList : List Val → List Json
  | [] => []
  | x :: xs => x.toJson :: toJsonList xs

def toJsonMembers : List (String × Val) → List (String × Json)
  | [] => []
  | (k, v) :: kvs => (k, v.toJson) :: toJsonMembers kvs
end

mutual
/-- The value as MongoDB gives it back. -/
def stored : Val → Val
  | .date t => .date t.stored
  | .list xs => .list (storedList xs)
  | .dict kvs => .dict (storedMembers kvs)
  | v => v

def storedList : List Val → List Val
  | [] => []
  | x :: xs => x.stored :: storedList xs

def storedMembers : List (String × Val) → List (String × Val)
  | [] => []
  | (k, v) :: kvs => (k, v.stored) :: storedMembers kvs
end

mutual
/-- The value after `json.dumps(v, default=str)` and `json.load`. -/
def reloaded : Val → Val
  | .date t => .str t.str
  | .other text => .str text
  | .list xs => .list (reloadedList xs)
  | .dict kvs => .dict (reloadedMembers kvs)
  | v => v

def reloadedList : List Val → List Val
  | [] => []
  | x :: xs => x.reloaded :: reloadedList xs

def reloadedMembers : List (String × Val) → List (String × Val)
  | [] => []
  | (k, v) :: kvs => (k, v.reloaded) :: reloadedMembers kvs
end

mutual
/-- Built only from JSON types: no datetime and no other object at any depth. -/
def plain : Val → Bool
  | .date _ => false
  | .other _ => false
  | .list xs => plainList xs
  | .dict kvs => plainMembers kvs
  | _ => true

def plainList : List Val → Bool
  | [] => true
  | x :: xs => x.plain && plainList xs

def plainMembers : List (String × Val) → Bool
  | [] => true
  | (_, v) :: kvs => v.plain && plainMembers kvs
end

mutual
theorem stored_of_plain (v : Val) (h : v.plain = true) : v.stored = v := by
  cases v with
  | date t => cases h
  | other text => cases h
  | list xs => simp only [plain] at h; rw [stored, storedList_of_plain xs h]
  | dict kvs => simp only [plain] at h; rw [stored, storedMembers_of_plain kvs h]
  | _ => rfl

theorem storedList_of_plain (xs : List Val) (h : plainList xs = true) : storedList xs = xs := by
  match xs with
  | [] => rfl
  | x :: xs =>
    simp only [plainList, Bool.and_eq_true] at h
    rw [storedList, stored_of_plain x h.1, storedList_of_plain xs h.2]

theorem storedMembers_of_plain (kvs : List (String × Val)) (h : plainMembers kvs = true) :
    storedMembers kvs = kvs := by
  match kvs with
  | [] => rfl
  | (k, v) :: kvs =>
    simp only [plainMembers, Bool.and_eq_true] at h
    rw [storedMembers, stored_of_plain v h.1, storedMembers_of_plain kvs h.2]
end

def Stable (v : Val) : Prop := v.stored.toJson = v.toJson

theorem stable_of_plain {v : Val} (h : v.plain = true) : v.Stable := by
  rw [Stable, stored_of_plain v h]

end Val

end Sentora
