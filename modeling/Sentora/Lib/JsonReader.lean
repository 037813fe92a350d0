import Sentora.Lib.Collection
import Sentora.Lib.Json

namespace Lib

/-- The blanks after a comma and after a colon. -/
structure Layout where
  afterComma : List Char
  afterColon : List Char

def isBlank (c : Char) : Bool := c = ' ' || c = '\t' || c = '\n' || c = '\r'

mutual
def textOf (l : Layout) : Json → List Char
  | .null => ['n', 'u', 'l', 'l']
  | .bool true => ['t', 'r', 'u', 'e']
  | .bool false => ['f', 'a', 'l', 's', 'e']
  | .int i => (Int.repr i).toList
  | .float x => x.text.toList
  | .str s => encStr s
  | .arr [] => ['[', ']']
  | .arr (x :: xs) => '[' :: (textOf l x ++ elemsText l xs)
  | .obj [] => ['{', '}']
  | .obj ((k, v) :: ms) =>
    '{' :: (encStr k ++ ':' :: (l.afterColon ++ (textOf l v ++ membersText l ms)))

/-- The rest of an array. -/
def elemsText (l : Layout) : List Json → List Char
  | [] => [']']
  | x :: xs => ',' :: (l.afterComma ++ (textOf l x ++ elemsText l xs))

/-- The rest of an object. -/
def membersText (l : Layout) : List (String × Json) → List Char
  | [] => ['}']
  | (k, v) :: ms =>
    ',' :: (l.afterComma ++ (encStr k ++ ':' :: (l.afterColon ++ (textOf l v ++ membersText l ms))))
end

def skipBlanks (cs : List Char) : List Char := cs.dropWhile isBlank

def hexDigitValue (c : Char) : Option Nat :=
  if '0' ≤ c ∧ c ≤ '9' then some (c.toNat - 48)
  else if 'a' ≤ c ∧ c ≤ 'f' then some (c.toNat - 87)
  else if 'A' ≤ c ∧ c ≤ 'F' then some (c.toNat - 55)
  else none

def readHex4 (a b c d : Char) : Option Nat := do
  return 4096 * (← hexDigitValue a) + 256 * (← hexDigitValue b) + 16 * (← hexDigitValue c) +
    (← hexDigitValue d)

def readLowHalf (n : Nat) : List Char → Option (Char × List Char)
  | '\\' :: 'u' :: a :: b :: c :: d :: rest => do
    let low ← readHex4 a b c d
    if 0xdc00 ≤ low ∧ low < 0xe000 then
      some (Char.ofNat (0x10000 + (n - 0xd800) * 0x400 + (low - 0xdc00)), rest)
    else none
  | _ => none

def shortEscape (c : Char) : Option Char :=
  if c = '"' ∨ c = '\\' ∨ c = '/' then some c
  else if c = 'b' then some '\x08'
  else if c = 'f' then some '\x0c'
  else if c = 'n' then some '\n'
  else if c = 'r' then some '\r'
  else if c = 't' then some '\t'
  else none

/-- One character of a string.  Half of a pair alone is no character. -/
def readOne : List Char → Option (Char × List Char)
  | '\\' :: 'u' :: a :: b :: c :: d :: rest => do
    let n ← readHex4 a b c d
    if 0xd800 ≤ n ∧ n < 0xdc00 then readLowHalf n rest
    else if 0xdc00 ≤ n ∧ n < 0xe000 then none
    else some (Char.ofNat n, rest)
  | '\\' :: e :: rest => (shortEscape e).map (·, rest)
  | c :: rest => if c = '\\' ∨ c.toNat < 32 then none else some (c, rest)
  | [] => none

/-- The characters up to the closing quote. -/
def readChars : Nat → List Char → Option (List Char × List Char)
  | 0, _ => none
  | _ + 1, '"' :: rest => some ([], rest)
  | n + 1, cs => do
    let (c, rest) ← readOne cs
    let (s, rest) ← readChars n rest
    return (c :: s, rest)

def readString (cs : List Char) : Option (String × List Char) :=
  (readChars (cs.length + 1) cs).map fun (s, rest) => (String.ofList s, rest)

/-- Decimal digits without a leading zero. -/
def readNatural : List Char → List Char × List Char
  | '0' :: rest => (['0'], rest)
  | cs => (cs.takeWhile Char.isDigit, cs.dropWhile Char.isDigit)

def readInteger : List Char → List Char × List Char
  | '-' :: cs =>
    let (digits, rest) := readNatural cs
    if digits = [] then ([], '-' :: cs) else ('-' :: digits, rest)
  | cs => readNatural cs

def readFraction : List Char → List Char × List Char
  | '.' :: cs =>
    let digits := cs.takeWhile Char.isDigit
    if digits = [] then ([], '.' :: cs) else ('.' :: digits, cs.dropWhile Char.isDigit)
  | cs => ([], cs)

def readSign : List Char → List Char × List Char
  | '+' :: cs => (['+'], cs)
  | '-' :: cs => (['-'], cs)
  | cs => ([], cs)

def readExponent : List Char → List Char × List Char
  | [] => ([], [])
  | c :: cs =>
    let (sign, rest) := readSign cs
    let digits := rest.takeWhile Char.isDigit
    if (c = 'e' ∨ c = 'E') ∧ digits ≠ [] then
      (c :: (sign ++ digits), rest.dropWhile Char.isDigit)
    else ([], c :: cs)

def floatOfText (text : List Char) : Option FloatLit :=
  if h : isFloatText (String.ofList text).toList = true then some ⟨String.ofList text, h⟩ else none

def readNumber (cs : List Char) : Option (Json × List Char) :=
  let (digits, rest) := readInteger cs
  let (fraction, rest) := readFraction rest
  let (exponent, rest) := readExponent rest
  if digits = [] then none
  else if fraction = [] ∧ exponent = [] then
    (String.ofList digits).toInt?.map fun i => (.int i, rest)
  else (floatOfText (digits ++ fraction ++ exponent)).map fun x => (.float x, rest)

def afterWord (word cs : List Char) : Option (List Char) :=
  if word.isPrefixOf cs then some (cs.drop word.length) else none

def jsonWords : List (List Char × Json) :=
  [("null".toList, .null), ("true".toList, .bool true), ("false".toList, .bool false),
    ("NaN".toList, .float ⟨"NaN", rfl⟩), ("Infinity".toList, .float ⟨"Infinity", rfl⟩),
    ("-Infinity".toList, .float ⟨"-Infinity", rfl⟩)]

def readWord (cs : List Char) : Option (Json × List Char) :=
  jsonWords.findSome? fun w => (afterWord w.1 cs).map fun rest => (w.2, rest)

def memberTable (ms : List (String × Json)) : List (String × Json) :=
  ms.foldl (fun table m => putDoc Prod.fst m table) []

mutual
def readValue : Nat → List Char → Option (Json × List Char)
  | 0, _ => none
  | _ + 1, [] => none
  | n + 1, c :: cs =>
    if c = '"' then (readString cs).map fun (s, rest) => (.str s, rest)
    else if c = '[' then
      match afterWord [']'] (skipBlanks cs) with
      | some rest => some (.arr [], rest)
      | none => (readElems n (skipBlanks cs)).map fun (xs, rest) => (.arr xs, rest)
    else if c = '{' then
      match afterWord ['}'] (skipBlanks cs) with
      | some rest => some (.obj [], rest)
      | none => (readMembers n (skipBlanks cs)).map fun (ms, rest) => (.obj (memberTable ms), rest)
    else (readWord (c :: cs)).or (readNumber (c :: cs))

def readElems : Nat → List Char → Option (List Json × List Char)
  | 0, _ => none
  | n + 1, cs => do
    let (x, rest) ← readValue n cs
    match skipBlanks rest with
    | ',' :: rest => (readElems n (skipBlanks rest)).map fun (xs, rest) => (x :: xs, rest)
    | ']' :: rest => some ([x], rest)
    | _ => none

def readMembers : Nat → List Char → Option (List (String × Json) × List Char)
  | 0, _ => none
  | n + 1, cs => do
    let quoted ← afterWord ['"'] cs
    let (k, rest) ← readString quoted
    let rest ← afterWord [':'] (skipBlanks rest)
    let (v, rest) ← readValue n (skipBlanks rest)
    match skipBlanks rest with
    | ',' :: rest => (readMembers n (skipBlanks rest)).map fun (ms, rest) => ((k, v) :: ms, rest)
    | '}' :: rest => some ([(k, v)], rest)
    | _ => none
end

/-- A text as a whole, with blanks around the value. -/
def readJson (cs : List Char) : Option Json := do
  let (j, rest) ← readValue (cs.length + 1) (skipBlanks cs)
  if skipBlanks rest = [] then some j else none

section Reading

variable {l : Layout} {c : Char} {r cs : List Char} {n : Nat}
variable {ms : List (String × Json)} {xs : List Json} {j : Json} {i : Int}

theorem hexDigitValue_hexDigit (m : Nat) : hexDigitValue (hexDigit m) = some (m % 16) := by
  have h : ∀ m < 16, hexDigitValue (Nat.digitChar m) = some m := by decide
  exact h (m % 16) (Nat.mod_lt m (by omega))

theorem readHex4_hex4 (h : n < 0x10000) :
    readHex4 (hexDigit (n / 4096)) (hexDigit (n / 256)) (hexDigit (n / 16)) (hexDigit n) =
      some n := by
  simp only [readHex4, hexDigitValue_hexDigit, Option.bind_eq_bind, Option.bind_some,
    Option.pure_def, Option.some.injEq]
  omega

theorem readOne_escU (h : n < 0x10000) (hpair : ¬(0xd800 ≤ n ∧ n < 0xe000)) :
    readOne (escU n ++ r) = some (Char.ofNat n, r) := by
  simp only [escU, hex4, List.cons_append, List.nil_append, readOne, readHex4_hex4 h,
    Option.bind_eq_bind, Option.bind_some]
  rw [if_neg (by omega), if_neg (by omega)]

theorem readOne_pair {high low : Nat} (hhigh : 0xd800 ≤ high ∧ high < 0xdc00)
    (hlow : 0xdc00 ≤ low ∧ low < 0xe000) : readOne (escU high ++ escU low ++ r) =
      some (Char.ofNat (0x10000 + (high - 0xd800) * 0x400 + (low - 0xdc00)), r) := by
  simp only [escU, hex4, List.cons_append, List.nil_append, readOne,
    readHex4_hex4 (show high < 0x10000 by omega), Option.bind_eq_bind, Option.bind_some]
  rw [if_pos hhigh]
  simp only [readLowHalf, readHex4_hex4 (show low < 0x10000 by omega), Option.bind_eq_bind,
    Option.bind_some]
  rw [if_pos hlow]

theorem readOne_plain (hc : c ≠ '\\') (hprint : 32 ≤ c.toNat) :
    readOne (c :: r) = some (c, r) := by
  rw [readOne]
  · rw [if_neg]
    rintro (heq | hlt)
    · exact hc heq
    · omega
  · intro a b d e rest hb
    exact absurd hb hc
  · intro e rest hb
    exact absurd hb hc

theorem readOne_escChar : readOne (escChar c ++ r) = some (c, r) := by
  by_cases h1 : c = '"'
  · subst h1
    rfl
  by_cases h2 : c = '\\'
  · subst h2
    rfl
  by_cases h3 : c = '\n'
  · subst h3
    rfl
  by_cases h4 : c = '\r'
  · subst h4
    rfl
  by_cases h5 : c = '\t'
  · subst h5
    rfl
  by_cases h6 : c = '\x08'
  · subst h6
    rfl
  by_cases h7 : c = '\x0c'
  · subst h7
    rfl
  rw [escChar, if_neg h1, if_neg h2, if_neg h3, if_neg h4, if_neg h5, if_neg h6, if_neg h7]
  have hsurrogate := char_not_surrogate c
  have hlt := char_lt c
  by_cases h8 : 32 ≤ c.toNat ∧ c.toNat ≤ 126
  · rw [if_pos h8]
    exact readOne_plain h2 h8.1
  · rw [if_neg h8]
    by_cases h9 : c.toNat < 0x10000
    · rw [if_pos h9, readOne_escU h9 hsurrogate, Char.ofNat_toNat]
    · have hn : 0x10000 + (0xd800 + (c.toNat - 0x10000) / 0x400 - 0xd800) * 0x400 +
          (0xdc00 + (c.toNat - 0x10000) % 0x400 - 0xdc00) = c.toNat := by omega
      rw [if_neg h9, readOne_pair (by omega) (by omega), hn, Char.ofNat_toNat]

theorem readChars_escStr (h : cs.length < n) : readChars n (escStr cs ++ r) = some (cs, r) := by
  induction cs generalizing n with
  | nil =>
    cases n with
    | zero => exact absurd h (Nat.not_lt_zero _)
    | succ n => rfl
  | cons c cs ih =>
    cases n with
    | zero => exact absurd h (Nat.not_lt_zero _)
    | succ n =>
      have hcs := ih (Nat.lt_of_succ_lt_succ h)
      have hone : readOne (escChar c ++ (escStr cs ++ r)) = some (c, escStr cs ++ r) :=
        readOne_escChar
      obtain ⟨a, t, ha, hquote⟩ := escChar_head c
      rw [escStr, List.append_assoc]
      rw [ha, List.cons_append] at hone ⊢
      rw [readChars, hone]
      · simp only [Option.bind_eq_bind, Option.bind_some, hcs, Option.pure_def]
      · intro rest hrest
        exact hquote (List.cons.inj hrest).1

theorem length_le_escStr (cs : List Char) : cs.length < (escStr cs).length := by
  induction cs with
  | nil => decide
  | cons c cs ih =>
    obtain ⟨a, t, ha, -⟩ := escChar_head c
    rw [escStr, ha, List.length_append, List.length_cons, List.length_cons]
    omega

theorem readString_escStr {s : String} : readString (escStr s.toList ++ r) = some (s, r) := by
  have hlength := length_le_escStr s.toList
  have hchars : readChars ((escStr s.toList ++ r).length + 1) (escStr s.toList ++ r) =
      some (s.toList, r) := readChars_escStr (by rw [List.length_append]; omega)
  rw [readString, hchars, Option.map_some]
  exact congrArg (fun t => some (t, r)) String.ofList_toList

/-- What stands behind a value in an array or an object, or nothing. -/
def Stops (r : List Char) : Prop := ∀ c ∈ r.head?, c = ',' ∨ c = ']' ∨ c = '}'

theorem takeWhile_digits (hcs : ∀ c ∈ cs, c.isDigit = true)
    (hr : ∀ c ∈ r.head?, c.isDigit = false) :
    (cs ++ r).takeWhile Char.isDigit = cs ∧ (cs ++ r).dropWhile Char.isDigit = r := by
  induction cs with
  | nil =>
    cases r with
    | nil => exact ⟨rfl, rfl⟩
    | cons c r =>
      have hc : ¬c.isDigit = true := by
        rw [hr c rfl]
        exact Bool.false_ne_true
      exact ⟨List.takeWhile_cons_of_neg hc, List.dropWhile_cons_of_neg hc⟩
  | cons c cs ih =>
    obtain ⟨hc, hcs⟩ := List.forall_mem_cons.mp hcs
    rw [List.cons_append, List.takeWhile_cons_of_pos hc, List.dropWhile_cons_of_pos hc,
      (ih hcs).1]
    exact ⟨rfl, (ih hcs).2⟩

theorem Stops.not_digit (h : Stops r) : ∀ c ∈ r.head?, c.isDigit = false := by
  intro c hc
  rcases h c hc with rfl | rfl | rfl
  · rfl
  · rfl
  · rfl

theorem natText_head {m : Nat} (h : 0 < m) : (Nat.toDigits 10 m).head? ≠ some '0' := by
  induction m using Nat.strongRecOn with
  | ind m ih =>
    by_cases hlt : m < 10
    · rw [Nat.toDigits_of_lt_base hlt, List.head?_cons, ne_eq, Option.some.injEq,
        Nat.digitChar_eq_zero]
      omega
    · rw [Nat.toDigits_of_base_le (by omega) (by omega),
        List.head?_append_of_ne_nil _ Nat.toDigits_ne_nil]
      exact ih (m / 10) (by omega) (by omega)

theorem readNatural_repr {m : Nat} (hr : Stops r) :
    readNatural ((Nat.repr m).toList ++ r) = ((Nat.repr m).toList, r) := by
  cases m with
  | zero => rfl
  | succ m =>
    have hspan := takeWhile_digits (natText_all (m + 1)) hr.not_digit
    have hhead := natText_head (Nat.succ_pos m)
    rw [← Nat.toList_repr] at hhead
    rw [readNatural, hspan.1, hspan.2]
    intro rest hrest
    refine hhead ?_
    have hne : (Nat.repr (m + 1)).toList ≠ [] := by
      rw [Nat.toList_repr]
      exact Nat.toDigits_ne_nil
    rw [← List.head?_append_of_ne_nil _ hne, hrest, List.head?_cons]

theorem readInteger_repr (hr : Stops r) :
    readInteger ((Int.repr i).toList ++ r) = ((Int.repr i).toList, r) := by
  cases i with
  | ofNat m =>
    have hnat := readNatural_repr (m := m) hr
    show readInteger ((Nat.repr m).toList ++ r) = ((Nat.repr m).toList, r)
    rw [readInteger, hnat]
    intro cs hcs
    have hdigit := natText_all m
    cases hm : (Nat.repr m).toList with
    | nil =>
      rw [Nat.toList_repr] at hm
      exact Nat.toDigits_ne_nil hm
    | cons d ds =>
      rw [hm] at hcs hdigit
      have hd := hdigit d List.mem_cons_self
      rw [(List.cons.inj hcs).1] at hd
      cases hd
  | negSucc m =>
    have hnat := readNatural_repr (m := m + 1) hr
    have hne : (Nat.repr (m + 1)).toList ≠ [] := by
      rw [Nat.toList_repr]
      exact Nat.toDigits_ne_nil
    have htext : (Int.repr (Int.negSucc m)).toList = '-' :: (Nat.repr (m + 1)).toList := by
      simp [Int.repr]
    rw [htext, List.cons_append, readInteger, hnat]
    dsimp only
    rw [if_neg hne]

theorem readNumber_repr (hr : Stops r) :
    readNumber ((Int.repr i).toList ++ r) = some (.int i, r) := by
  have hfraction : readFraction r = ([], r) := by
    cases r with
    | nil => rfl
    | cons c r =>
      rcases hr c rfl with rfl | rfl | rfl
      · rfl
      · rfl
      · rfl
  have hexponent : readExponent r = ([], r) := by
    cases r with
    | nil => rfl
    | cons c r =>
      rcases hr c rfl with rfl | rfl | rfl
      · rfl
      · rfl
      · rfl
  rw [readNumber, readInteger_repr hr]
  dsimp only
  rw [hfraction]
  dsimp only
  rw [hexponent, if_neg (intText_ne_nil i), if_pos ⟨rfl, rfl⟩, String.ofList_toList,
    Int.toInt?_repr, Option.map_some]

theorem afterWord_append (word : List Char) : afterWord word (word ++ r) = some r := by
  rw [afterWord, if_pos (List.isPrefixOf_iff_prefix.mpr (List.prefix_append word r)),
    List.drop_left]

theorem readWord_of_digit (hc : c.isDigit = true) : readWord (c :: r) = none := by
  have hne : ∀ d : Char, d.isDigit = false → d ≠ c := by
    rintro d hd rfl
    rw [hd] at hc
    cases hc
  simp [readWord, jsonWords, afterWord, hne 'n' rfl, hne 't' rfl, hne 'f' rfl, hne 'N' rfl,
    hne 'I' rfl, hne '-' rfl]

theorem readWord_of_negative (hc : c.isDigit = true) : readWord ('-' :: c :: r) = none := by
  have hne : 'I' ≠ c := by
    rintro rfl
    cases hc
  simp [readWord, jsonWords, afterWord, hne]

theorem readWord_repr : readWord ((Int.repr i).toList ++ r) = none := by
  have hnat : ∀ m : Nat, ∃ d ds, (Nat.repr m).toList = d :: ds ∧ d.isDigit = true := by
    intro m
    have hdigit := natText_all m
    cases hm : (Nat.repr m).toList with
    | nil =>
      rw [Nat.toList_repr] at hm
      exact absurd hm Nat.toDigits_ne_nil
    | cons d ds =>
      rw [hm] at hdigit
      exact ⟨d, ds, rfl, hdigit d List.mem_cons_self⟩
  cases i with
  | ofNat m =>
    obtain ⟨d, ds, hm, hd⟩ := hnat m
    show readWord ((Nat.repr m).toList ++ r) = none
    rw [hm]
    exact readWord_of_digit hd
  | negSucc m =>
    obtain ⟨d, ds, hm, hd⟩ := hnat (m + 1)
    have htext : (Int.repr (Int.negSucc m)).toList = '-' :: (Nat.repr (m + 1)).toList := by
      simp [Int.repr]
    rw [htext, hm]
    exact readWord_of_negative hd

/-- A floating point number is read back from its text. -/
def FloatLit.Readable (x : FloatLit) : Prop :=
  ∀ r, Stops r → (readWord (x.text.toList ++ r)).or (readNumber (x.text.toList ++ r)) =
    some (.float x, r)

/-- The trees that have texts: the names of an object are distinct. -/
inductive Json.Loadable : Json → Prop where
  | null : Loadable .null
  | bool (b : Bool) : Loadable (.bool b)
  | int (i : Int) : Loadable (.int i)
  | float {x : FloatLit} (h : x.Readable) : Loadable (.float x)
  | str (s : String) : Loadable (.str s)
  | arr {xs : List Json} (h : ∀ x ∈ xs, Loadable x) : Loadable (.arr xs)
  | obj {ms : List (String × Json)} (hnames : (ms.map Prod.fst).Nodup)
    (h : ∀ m ∈ ms, Loadable m.2) : Loadable (.obj ms)

structure Layout.Blank (l : Layout) : Prop where
  comma : ∀ c ∈ l.afterComma, isBlank c = true
  colon : ∀ c ∈ l.afterColon, isBlank c = true

theorem skipBlanks_append (blanks : List Char) (hblanks : ∀ c ∈ blanks, isBlank c = true)
    (hc : isBlank c = false) : skipBlanks (blanks ++ c :: r) = c :: r := by
  induction blanks with
  | nil => exact List.dropWhile_cons_of_neg (by rw [hc]; exact Bool.false_ne_true)
  | cons b blanks ih =>
    obtain ⟨hb, hblanks⟩ := List.forall_mem_cons.mp hblanks
    rw [List.cons_append, skipBlanks, List.dropWhile_cons_of_pos hb]
    exact ih hblanks

theorem skipBlanks_cons (hc : isBlank c = false) : skipBlanks (c :: r) = c :: r :=
  skipBlanks_append [] (fun _ h => nomatch h) hc

theorem head_number (h : numChar c = true) : isBlank c = false ∧ c ≠ ']' := by
  refine ⟨?_, ?_⟩
  · cases hb : isBlank c with
    | false => rfl
    | true =>
      rw [isBlank, Bool.or_eq_true, Bool.or_eq_true, Bool.or_eq_true, decide_eq_true_iff,
        decide_eq_true_iff, decide_eq_true_iff, decide_eq_true_iff] at hb
      rcases hb with ((rfl | rfl) | rfl) | rfl
      · exact absurd h (by decide)
      · exact absurd h (by decide)
      · exact absurd h (by decide)
      · exact absurd h (by decide)
  · rintro rfl
    exact absurd h (by decide)

theorem textOf_head (j : Json) :
    ∃ c t, textOf l j = c :: t ∧ isBlank c = false ∧ c ≠ ']' := by
  cases j with
  | null => exact ⟨_, _, rfl, rfl, by decide⟩
  | bool b =>
    cases b with
    | true => exact ⟨_, _, rfl, rfl, by decide⟩
    | false => exact ⟨_, _, rfl, rfl, by decide⟩
  | int i =>
    have hall := intText_numChar i
    cases ht : (Int.repr i).toList with
    | nil => exact absurd ht (intText_ne_nil i)
    | cons c t =>
      rw [ht, List.all_cons, Bool.and_eq_true] at hall
      exact ⟨c, t, by rw [textOf, ht], head_number hall.1⟩
  | float x =>
    have hall := floatText_numChar x
    cases ht : x.text.toList with
    | nil =>
      have hwf := x.wf
      rw [ht] at hwf
      cases hwf
    | cons c t =>
      rw [ht, List.all_cons, Bool.and_eq_true] at hall
      exact ⟨c, t, by rw [textOf, ht], head_number hall.1⟩
  | str s => exact ⟨_, _, rfl, rfl, by decide⟩
  | arr xs =>
    cases xs with
    | nil => exact ⟨_, _, rfl, rfl, by decide⟩
    | cons x xs => exact ⟨_, _, rfl, rfl, by decide⟩
  | obj ms =>
    cases ms with
    | nil => exact ⟨_, _, rfl, rfl, by decide⟩
    | cons m ms => exact ⟨_, _, rfl, rfl, by decide⟩

theorem skipBlanks_textOf {blanks : List Char}
    (hblanks : ∀ c ∈ blanks, isBlank c = true) :
    skipBlanks (blanks ++ (textOf l j ++ r)) = textOf l j ++ r := by
  obtain ⟨c, t, ht, hc, -⟩ := textOf_head (l := l) j
  rw [ht]
  exact skipBlanks_append _ hblanks hc

theorem skipBlanks_text (j : Json) (r : List Char) :
    skipBlanks (textOf l j ++ r) = textOf l j ++ r := by
  obtain ⟨c, t, ht, hc, -⟩ := textOf_head (l := l) j
  rw [ht]
  exact skipBlanks_cons hc

def Reads (l : Layout) (j : Json) : Prop :=
  ∀ n r, (textOf l j).length < n → Stops r → readValue n (textOf l j ++ r) = some (j, r)

theorem stops_elemsText : Stops (elemsText l xs ++ r) := by
  intro c hc
  cases xs with
  | nil => exact Or.inr (Or.inl (Option.some.inj hc).symm)
  | cons x xs => exact Or.inl (Option.some.inj hc).symm

theorem stops_membersText : Stops (membersText l ms ++ r) := by
  intro c hc
  cases ms with
  | nil => exact Or.inr (Or.inr (Option.some.inj hc).symm)
  | cons m ms => exact Or.inl (Option.some.inj hc).symm

variable (l xs) in
theorem length_elemsText : 0 < (elemsText l xs).length := by
  cases xs with
  | nil => exact Nat.one_pos
  | cons x xs => exact Nat.succ_pos _

theorem readElems_elemsText (hl : l.Blank) {x : Json} (hx : Reads l x)
    (hxs : ∀ y ∈ xs, Reads l y) (hn : (textOf l x ++ elemsText l xs).length < n) :
    readElems n (textOf l x ++ (elemsText l xs ++ r)) = some (x :: xs, r) := by
  induction xs generalizing x n with
  | nil =>
    cases n with
    | zero => exact absurd hn (Nat.not_lt_zero _)
    | succ n =>
      rw [List.length_append] at hn
      have hpos := length_elemsText l []
      have hvalue := hx n (elemsText l [] ++ r) (by omega) stops_elemsText
      rw [readElems, hvalue]
      rfl
  | cons y ys ih =>
    cases n with
    | zero => exact absurd hn (Nat.not_lt_zero _)
    | succ n =>
      obtain ⟨hy, hys⟩ := List.forall_mem_cons.mp hxs
      have htext : elemsText l (y :: ys) ++ r =
          ',' :: (l.afterComma ++ (textOf l y ++ (elemsText l ys ++ r))) := by
        simp only [elemsText, List.cons_append, List.append_assoc]
      have hpos := length_elemsText l (y :: ys)
      have hlength : (elemsText l (y :: ys)).length =
          l.afterComma.length + (textOf l y ++ elemsText l ys).length + 1 := by
        simp only [elemsText, List.length_cons, List.length_append]
      rw [List.length_append] at hn
      have hvalue := hx n (elemsText l (y :: ys) ++ r) (by omega) stops_elemsText
      have hrest := ih hy hys (n := n) (by omega)
      rw [readElems, hvalue, htext]
      simp only [Option.bind_eq_bind, Option.bind_some, skipBlanks_cons (show isBlank ',' = false
        from rfl), skipBlanks_textOf hl.comma, hrest, Option.map_some]

theorem afterWord_quote {k : String} :
    afterWord ['"'] (encStr k ++ r) = some (escStr k.toList ++ r) :=
  afterWord_append ['"']

theorem afterWord_colon : afterWord [':'] (skipBlanks (':' :: r)) = some r := by
  rw [skipBlanks_cons rfl]
  exact afterWord_append [':']

theorem readMembers_membersText (hl : l.Blank) {k : String} {v : Json} (hv : Reads l v)
    (hms : ∀ m ∈ ms, Reads l m.2)
    (hn : (encStr k ++ ':' :: (l.afterColon ++ (textOf l v ++ membersText l ms))).length < n) :
    readMembers n (encStr k ++ ':' :: (l.afterColon ++ (textOf l v ++ (membersText l ms ++ r)))) =
      some ((k, v) :: ms, r) := by
  induction ms generalizing k v n with
  | nil =>
    cases n with
    | zero => exact absurd hn (Nat.not_lt_zero _)
    | succ n =>
      simp only [List.length_append, List.length_cons, membersText] at hn
      have hvalue := hv n (membersText l [] ++ r) (by omega) stops_membersText
      rw [readMembers]
      simp only [afterWord_quote, readString_escStr, afterWord_colon, skipBlanks_textOf hl.colon,
        hvalue,
        Option.bind_eq_bind, Option.bind_some]
      rfl
  | cons m ms ih =>
    cases n with
    | zero => exact absurd hn (Nat.not_lt_zero _)
    | succ n =>
      obtain ⟨k', v'⟩ := m
      obtain ⟨hv', hms'⟩ := List.forall_mem_cons.mp hms
      change Reads l v' at hv'
      have htext : membersText l ((k', v') :: ms) ++ r = ',' :: (l.afterComma ++ (encStr k' ++
          ':' :: (l.afterColon ++ (textOf l v' ++ (membersText l ms ++ r))))) := by
        simp only [membersText, List.cons_append, List.append_assoc]
      simp only [List.length_append, List.length_cons, membersText] at hn
      have hvalue := hv n (membersText l ((k', v') :: ms) ++ r) (by omega) stops_membersText
      have hrest := ih (k := k') hv' hms' (n := n)
        (by simp only [List.length_append, List.length_cons]; omega)
      have hskip : ∀ rest, skipBlanks (l.afterComma ++ (encStr k' ++ rest)) = encStr k' ++ rest :=
        fun rest => skipBlanks_append _ hl.comma rfl
      rw [htext] at hvalue ⊢
      rw [readMembers]
      simp only [afterWord_quote, readString_escStr, afterWord_colon, skipBlanks_textOf hl.colon,
        hvalue, Option.bind_eq_bind, Option.bind_some,
        skipBlanks_cons (show isBlank ',' = false from rfl), hskip, hrest, Option.map_some]

theorem memberTable_eq (h : (ms.map Prod.fst).Nodup) :
    memberTable ms = ms := by
  have hput : ∀ (table : List (String × Json)) (m : String × Json),
      m.1 ∉ table.map Prod.fst → putDoc Prod.fst m table = table ++ [m] := by
    intro table m hnew
    induction table with
    | nil => rfl
    | cons e table ih =>
      rw [List.map_cons, List.mem_cons, not_or] at hnew
      rw [putDoc, if_neg fun heq => hnew.1 heq.symm, ih hnew.2, List.cons_append]
  have hfold : ∀ table : List (String × Json), ((table ++ ms).map Prod.fst).Nodup →
      ms.foldl (fun table m => putDoc Prod.fst m table) table = table ++ ms := by
    intro table hnodup
    induction ms generalizing table with
    | nil => exact (List.append_nil table).symm
    | cons m ms ih =>
      have hnew : m.1 ∉ table.map Prod.fst := by
        rw [List.map_append, List.nodup_append] at hnodup
        exact fun hmem => hnodup.2.2 _ hmem _ List.mem_cons_self rfl
      rw [List.foldl_cons, hput table m hnew]
      rw [List.append_cons] at hnodup
      rw [List.append_cons table m ms]
      exact ih (List.nodup_cons.mp h).2 (table ++ [m]) hnodup
  exact hfold [] h

theorem readValue_number (hne : cs ≠ []) (hall : cs.all numChar = true) :
    readValue (n + 1) (cs ++ r) = (readWord (cs ++ r)).or (readNumber (cs ++ r)) := by
  obtain ⟨c, t, rfl⟩ := List.exists_cons_of_ne_nil hne
  rw [List.all_cons, Bool.and_eq_true] at hall
  have hnot : ∀ d : Char, numChar d = false → c ≠ d := by
    rintro d hd rfl
    rw [hd] at hall
    cases hall.1
  rw [List.cons_append, readValue, if_neg (hnot '"' (by decide)), if_neg (hnot '[' (by decide)),
    if_neg (hnot '{' (by decide))]

/-- The trees that have texts are read back from them. -/
theorem Json.Loadable.reads (hl : l.Blank) (h : j.Loadable) : Reads l j := by
  intro n r hn hr
  induction h generalizing n r with
  | null =>
    cases n with
    | zero => exact absurd hn (Nat.not_lt_zero _)
    | succ n => rfl
  | bool b =>
    cases n with
    | zero => exact absurd hn (Nat.not_lt_zero _)
    | succ n =>
      cases b with
      | true => rfl
      | false => rfl
  | int i =>
    cases n with
    | zero => exact absurd hn (Nat.not_lt_zero _)
    | succ n =>
      have hvalue : readValue (n + 1) ((Int.repr i).toList ++ r) =
          (readWord ((Int.repr i).toList ++ r)).or (readNumber ((Int.repr i).toList ++ r)) :=
        readValue_number (intText_ne_nil i) (intText_numChar i)
      rw [textOf, hvalue, readWord_repr, readNumber_repr hr, Option.none_or]
  | @float x h =>
    cases n with
    | zero => exact absurd hn (Nat.not_lt_zero _)
    | succ n =>
      have hne : x.text.toList ≠ [] := by
        intro hnil
        have hwf := x.wf
        rw [hnil] at hwf
        cases hwf
      have hvalue : readValue (n + 1) (x.text.toList ++ r) =
          (readWord (x.text.toList ++ r)).or (readNumber (x.text.toList ++ r)) :=
        readValue_number hne (floatText_numChar x)
      rw [textOf, hvalue, h r hr]
  | str s =>
    cases n with
    | zero => exact absurd hn (Nat.not_lt_zero _)
    | succ n =>
      show readValue (n + 1) ('"' :: (escStr s.toList ++ r)) = _
      rw [readValue, if_pos rfl, readString_escStr, Option.map_some]
  | @arr xs h ih =>
    cases n with
    | zero => exact absurd hn (Nat.not_lt_zero _)
    | succ n =>
      cases xs with
      | nil => rfl
      | cons x xs =>
        obtain ⟨hx, hxs⟩ := List.forall_mem_cons.mp ih
        have hrest := readElems_elemsText (r := r) hl hx hxs (Nat.lt_of_succ_lt_succ hn)
        have hopen : afterWord [']'] (textOf l x ++ (elemsText l xs ++ r)) = none := by
          obtain ⟨c, t, ht, -, hc⟩ := textOf_head (l := l) x
          simp [ht, afterWord, hc.symm]
        rw [textOf, List.cons_append, List.append_assoc, readValue, if_neg (by decide),
          if_pos rfl, skipBlanks_text, hopen]
        dsimp only
        rw [hrest, Option.map_some]
  | @obj ms hnames h ih =>
    cases n with
    | zero => exact absurd hn (Nat.not_lt_zero _)
    | succ n =>
      cases ms with
      | nil => rfl
      | cons m ms =>
        obtain ⟨k, v⟩ := m
        obtain ⟨hv, hms⟩ := List.forall_mem_cons.mp ih
        have hrest := readMembers_membersText (k := k) (r := r) hl hv hms
          (Nat.lt_of_succ_lt_succ hn)
        have hskip : ∀ rest, skipBlanks (encStr k ++ rest) = encStr k ++ rest :=
          fun rest => skipBlanks_cons rfl
        have hopen : ∀ rest, afterWord ['}'] (encStr k ++ rest) = none := fun rest => rfl
        have htext : textOf l (.obj ((k, v) :: ms)) ++ r = '{' :: (encStr k ++
            ':' :: (l.afterColon ++ (textOf l v ++ (membersText l ms ++ r)))) := by
          simp only [textOf, List.cons_append, List.append_assoc]
        rw [htext, readValue, if_neg (by decide), if_neg (by decide), if_pos rfl, hskip, hopen]
        dsimp only
        rw [hrest, Option.map_some, memberTable_eq hnames]

theorem readJson_textOf (hl : l.Blank) (h : j.Loadable) :
    readJson (textOf l j) = some j := by
  have hskip := skipBlanks_text (l := l) j []
  have hvalue := h.reads hl ((textOf l j).length + 1) [] (Nat.lt_succ_self _)
    fun _ h => nomatch h
  rw [List.append_nil] at hskip
  rw [List.append_nil] at hvalue
  rw [readJson, hskip, hvalue]
  rfl

end Reading

end Lib
