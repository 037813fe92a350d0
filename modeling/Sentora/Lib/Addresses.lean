import Sentora.Lib.JsonReader

namespace Lib.Addresses

/-- What stands before the first `c`. -/
def upToFirst (c : Char) (s : List Char) : List Char := s.takeWhile (· ≠ c)

/-- What stands after the first `c`, nothing where there is none. -/
def afterFirst (c : Char) (s : List Char) : List Char := (s.dropWhile (· ≠ c)).drop 1

structure IPv4Address where
  octets : List (Fin 256)
  length_octets : octets.length = 4
deriving DecidableEq

structure IPv6Address where
  hextets : List (Fin 65536)
  length_hextets : hextets.length = 8
  scopeId : Option (List Char) := none
deriving DecidableEq

inductive IpAddress where
  | v4 (a : IPv4Address)
  | v6 (a : IPv6Address)
deriving DecidableEq

def parseOctet (s : List Char) : Option (Fin 256) :=
  if s ≠ [] ∧ s.all Char.isDigit ∧ s.length ≤ 3 ∧ (s = ['0'] ∨ s.head? ≠ some '0') then
    let n := Nat.ofDigitChars 10 s 0
    if h : n < 256 then some ⟨n, h⟩ else none
  else none

def parseIPv4 (s : List Char) : Option IPv4Address := do
  let octets ← (s.splitOn '.').mapM parseOctet
  if h : octets.length = 4 then some ⟨octets, h⟩ else none

def hexValue (s : List Char) : Option Nat :=
  s.foldlM (fun n c => (16 * n + ·) <$> hexDigitValue c) 0

def parseHextet (s : List Char) : Option (Fin 65536) := do
  if s = [] ∨ 4 < s.length then none
  let n ← hexValue s
  if h : n < 65536 then some ⟨n, h⟩ else none

/-- The last part may be an address of four numbers, for the last two. -/
def expandIPv4Suffix (parts : List (List Char)) : Option (List (List Char)) :=
  match parts.getLast? with
  | none => some parts
  | some last =>
    if '.' ∈ last then do
      match (← parseIPv4 last).octets with
      | [a, b, c, d] =>
        some (parts.dropLast ++
          [Nat.toDigits 16 (256 * a.val + b.val), Nat.toDigits 16 (256 * c.val + d.val)])
      | _ => none
    else some parts

/-- The empty parts between the first and the last one. -/
def skipIndices (parts : List (List Char)) : List Nat :=
  (List.range' 1 (parts.length - 2)).filter fun i => (parts.getD i []).isEmpty

def parseHextets (parts : List (List Char)) : Option (List (Fin 65536)) :=
  match skipIndices parts with
  | [] => parts.mapM parseHextet
  | [i] => do
    -- the first or the last part is empty only next to the empty part between them
    let high ← if parts.head? = some [] then if i = 1 then some [] else none
      else some (parts.take i)
    let low ← if parts.getLast? = some [] then if i + 2 = parts.length then some [] else none
      else some (parts.drop (i + 1))
    if high.length + low.length < 8 then
      return (← high.mapM parseHextet) ++ List.replicate (8 - (high.length + low.length)) 0 ++
        (← low.mapM parseHextet)
    else none
  | _ => none

def splitScopeId (s : List Char) : Option (List Char × Option (List Char)) :=
  if '%' ∈ s then
    let scope := afterFirst '%' s
    if scope = [] ∨ '%' ∈ scope then none else some (upToFirst '%' s, some scope)
  else some (s, none)

def parseIPv6 (s : List Char) : Option IPv6Address := do
  if '/' ∈ s then none
  let (address, scope) ← splitScopeId s
  let parts := address.splitOn ':'
  if parts.length < 3 then none
  let parts ← expandIPv4Suffix parts
  if 9 < parts.length then none
  let hextets ← parseHextets parts
  if h : hextets.length = 8 then some ⟨hextets, h, scope⟩ else none

def ipAddress (s : List Char) : Option IpAddress :=
  (parseIPv4 s).map .v4 <|> (parseIPv6 s).map .v6

def IPv4Address.text (a : IPv4Address) : List Char :=
  ['.'].intercalate (a.octets.map fun n => Nat.toDigits 10 n.val)

/-- A run of zeros: where it starts, and how many they are. -/
structure Run where
  start : Nat
  length : Nat

def countZeros : Run × Run → List Char × Nat → Run × Run
  | (best, run), (hextet, index) =>
    if hextet = ['0'] then
      let run := if run.length = 0 then ⟨index, 1⟩ else ⟨run.start, run.length + 1⟩
      (if best.length < run.length then run else best, run)
    else (best, ⟨0, 0⟩)

def longestZeros (hextets : List (List Char)) : Run :=
  (hextets.zipIdx.foldl countZeros (⟨0, 0⟩, ⟨0, 0⟩)).1

def compressHextets (hextets : List (List Char)) : List (List Char) :=
  let best := longestZeros hextets
  if 1 < best.length then
    let hextets' := hextets.take best.start ++ [] :: hextets.drop (best.start + best.length) ++
      (if best.start + best.length = hextets.length then [[]] else [])
    if best.start = 0 then [] :: hextets' else hextets'
  else hextets

def IPv6Address.address (a : IPv6Address) : List Char :=
  [':'].intercalate (compressHextets (a.hextets.map fun n => Nat.toDigits 16 n.val))

def IPv6Address.text (a : IPv6Address) : List Char :=
  match a.scopeId with
  | none => a.address
  | some scope => a.address ++ '%' :: scope

def IpAddress.text : IpAddress → List Char
  | .v4 a => a.text
  | .v6 a => a.text

section Written

variable {b n : Nat} {c : Char} {hextets : List (List Char)}

theorem exists_digitChar_of_mem_toDigits (hb : 1 < b) (hc : c ∈ Nat.toDigits b n) :
    ∃ d < b, c = d.digitChar := by
  induction n using Nat.strongRecOn with
  | ind n ih =>
    rcases Nat.lt_or_ge n b with hlt | hge
    · rw [Nat.toDigits_of_lt_base hlt, List.mem_singleton] at hc
      exact ⟨n, hlt, hc⟩
    · rw [Nat.toDigits_of_base_le hb hge, List.mem_append] at hc
      rcases hc with hc | hc
      · exact ih (n / b) (Nat.div_lt_self (by omega) hb) hc
      · rw [List.mem_singleton] at hc
        exact ⟨n % b, Nat.mod_lt n (Nat.zero_lt_of_lt hb), hc⟩

def IsAddressChar (c : Char) : Prop := c = ':' ∨ ∃ d < 16, c = d.digitChar

theorem mem_intercalate {sep : Char} {parts : List (List Char)}
    (hc : c ∈ [sep].intercalate parts) : c = sep ∨ ∃ p ∈ parts, c ∈ p := by
  induction parts with
  | nil => cases hc
  | cons p parts ih =>
    cases parts with
    | nil =>
      rw [List.intercalate_singleton] at hc
      exact Or.inr ⟨p, List.mem_cons_self, hc⟩
    | cons q parts =>
      rw [List.intercalate_cons_cons, List.append_assoc, List.mem_append, List.mem_append,
        List.mem_singleton] at hc
      rcases hc with hc | hc | hc
      · exact Or.inr ⟨p, List.mem_cons_self, hc⟩
      · exact Or.inl hc
      · exact (ih hc).imp_right fun ⟨r, hr, hcr⟩ => ⟨r, List.mem_cons_of_mem p hr, hcr⟩

theorem sep_mem_intercalate {sep : Char} {parts : List (List Char)} (h : 2 ≤ parts.length) :
    sep ∈ [sep].intercalate parts := by
  match parts, h with
  | p :: q :: parts, _ =>
    rw [List.intercalate_cons_cons, List.append_assoc]
    exact List.mem_append_right p (List.mem_append_left _ List.mem_cons_self)

theorem mem_compressHextets {h : List Char} (hh : h ∈ compressHextets hextets) :
    h = [] ∨ h ∈ hextets := by
  rw [compressHextets] at hh
  split at hh
  · have hrest : ∀ {tail : List (List Char)}, (∀ t ∈ tail, t = []) →
        h ∈ hextets.take (longestZeros hextets).start ++ [] ::
          hextets.drop ((longestZeros hextets).start + (longestZeros hextets).length) ++ tail →
        h = [] ∨ h ∈ hextets := by
      intro tail htail hh
      rw [List.mem_append, List.mem_append, List.mem_cons] at hh
      rcases hh with (hh | hh | hh) | hh
      · exact Or.inr (List.mem_of_mem_take hh)
      · exact Or.inl hh
      · exact Or.inr (List.mem_of_mem_drop hh)
      · exact Or.inl (htail h hh)
    have htail : ∀ t ∈ (if (longestZeros hextets).start + (longestZeros hextets).length =
        hextets.length then [[]] else [] : List (List Char)), t = [] := by
      intro t ht
      split at ht
      · exact List.mem_singleton.mp ht
      · cases ht
    dsimp only at hh
    split at hh
    · rcases List.mem_cons.mp hh with hh | hh
      · exact Or.inl hh
      · exact hrest htail hh
    · exact hrest htail hh
  · exact Or.inr hh

theorem two_le_length_compressHextets (h : 2 ≤ hextets.length) :
    2 ≤ (compressHextets hextets).length := by
  rw [compressHextets]
  split
  · dsimp only
    split
    · rw [List.length_cons, List.length_append, List.length_append, List.length_cons]
      omega
    · rw [List.length_append, List.length_append, List.length_cons, List.length_take]
      omega
  · exact h

theorem IPv4Address.mem_text {a : IPv4Address} (hc : c ∈ a.text) : c.isDigit = true ∨ c = '.' := by
  rcases mem_intercalate hc with hc | ⟨p, hp, hc⟩
  · exact Or.inr hc
  · obtain ⟨n, -, rfl⟩ := List.mem_map.mp hp
    exact Or.inl (Nat.isDigit_of_mem_toDigits (by decide) (by decide) hc)

theorem IPv4Address.text_ne_nil (a : IPv4Address) : a.text ≠ [] := by
  refine List.ne_nil_of_mem (sep_mem_intercalate ?_)
  rw [List.length_map, a.length_octets]
  decide

theorem IPv6Address.mem_address {a : IPv6Address} (hc : c ∈ a.address) : IsAddressChar c := by
  refine (mem_intercalate hc).imp_right fun ⟨p, hp, hc⟩ => ?_
  rcases mem_compressHextets hp with rfl | hp
  · cases hc
  · obtain ⟨n, -, rfl⟩ := List.mem_map.mp hp
    exact exists_digitChar_of_mem_toDigits (by decide) hc

theorem IPv6Address.colon_mem_address (a : IPv6Address) : ':' ∈ a.address := by
  apply sep_mem_intercalate
  apply two_le_length_compressHextets
  rw [List.length_map, a.length_hextets]
  decide

theorem IPv6Address.address_isPrefix (a : IPv6Address) : a.address <+: a.text := by
  rw [IPv6Address.text]
  split
  · exact List.prefix_refl a.address
  · exact List.prefix_append a.address _

theorem IPv6Address.colon_mem_text (a : IPv6Address) : ':' ∈ a.text :=
  a.address_isPrefix.mem a.colon_mem_address

theorem IPv6Address.exists_cons_text (a : IPv6Address) :
    ∃ c rest, a.text = c :: rest ∧ IsAddressChar c := by
  obtain ⟨c, rest, hcons⟩ := List.exists_cons_of_ne_nil (List.ne_nil_of_mem a.colon_mem_address)
  obtain ⟨tail, htext⟩ := a.address_isPrefix
  refine ⟨c, rest ++ tail, ?_, a.mem_address (by rw [hcons]; exact List.mem_cons_self)⟩
  rw [← htext, hcons, List.cons_append]

end Written

end Lib.Addresses
