import Mathlib.Data.String.Basic
import Std.Data.String.ToInt

/-!
# JSON texts

JSON trees and the text an encoder writes for them, in the form with a blank
after each comma and each colon and every character outside printable ASCII
escaped.  The result this file exists for is `encode_injective`: the text
determines the tree.

The proof never builds a parser.  `enc_append_inj` says that the text of a tree
is found again at the head of any longer text, as long as what follows starts
with a character that ends a value.  Arrays and objects carry their own closing
bracket, so only numbers need that condition.
-/

namespace Lib

/-- A character that occurs in the text of a number. -/
def numChar (c : Char) : Bool :=
  c.isDigit || "+-.eInfityNa".toList.contains c

/-- The text of a number that is not an integer: it starts as a number does, and
some character of it occurs in no integer. -/
def isFloatText : List Char → Bool
  | [] => false
  | c :: cs =>
    (c.isDigit || c == '-' || c == 'I' || c == 'N') && (c :: cs).all numChar &&
      (c :: cs).any (fun d => !(d.isDigit || d == '-'))

/-- A floating point number, known by the text it is written as. -/
structure FloatLit where
  text : String
  wf : isFloatText text.toList = true
deriving DecidableEq

inductive Json where
  | null
  | bool (b : Bool)
  | int (i : Int)
  | float (x : FloatLit)
  | str (s : String)
  | arr (xs : List Json)
  | obj (ms : List (String × Json))

def hexDigit (n : Nat) : Char := Nat.digitChar (n % 16)

def hex4 (n : Nat) : List Char :=
  [hexDigit (n / 4096), hexDigit (n / 256), hexDigit (n / 16), hexDigit n]

def escU (n : Nat) : List Char := '\\' :: 'u' :: hex4 n

/-- One character of a string, escaped unless it is printable ASCII.  A character
beyond the sixteen-bit range is written as a surrogate pair. -/
def escChar (c : Char) : List Char :=
  if c = '"' then ['\\', '"']
  else if c = '\\' then ['\\', '\\']
  else if c = '\n' then ['\\', 'n']
  else if c = '\r' then ['\\', 'r']
  else if c = '\t' then ['\\', 't']
  else if c = '\x08' then ['\\', 'b']
  else if c = '\x0c' then ['\\', 'f']
  else if 32 ≤ c.toNat ∧ c.toNat ≤ 126 then [c]
  else if c.toNat < 0x10000 then escU c.toNat
  else escU (0xd800 + (c.toNat - 0x10000) / 0x400) ++ escU (0xdc00 + (c.toNat - 0x10000) % 0x400)

/-- The rest of a string, its closing quote included. -/
def escStr : List Char → List Char
  | [] => ['"']
  | c :: cs => escChar c ++ escStr cs

def encStr (s : String) : List Char := '"' :: escStr s.toList

mutual
def enc : Json → List Char
  | .null => ['n', 'u', 'l', 'l']
  | .bool true => ['t', 'r', 'u', 'e']
  | .bool false => ['f', 'a', 'l', 's', 'e']
  | .int i => (Int.repr i).toList
  | .float x => x.text.toList
  | .str s => encStr s
  | .arr xs => '[' :: encElems xs
  | .obj ms => '{' :: encMembers ms

def encElems : List Json → List Char
  | [] => [']']
  | x :: xs => enc x ++ encElemsRest xs

def encElemsRest : List Json → List Char
  | [] => [']']
  | x :: xs => ',' :: ' ' :: (enc x ++ encElemsRest xs)

def encMembers : List (String × Json) → List Char
  | [] => ['}']
  | (k, v) :: ms => encStr k ++ ':' :: ' ' :: (enc v ++ encMembersRest ms)

def encMembersRest : List (String × Json) → List Char
  | [] => ['}']
  | (k, v) :: ms => ',' :: ' ' :: (encStr k ++ ':' :: ' ' :: (enc v ++ encMembersRest ms))
end

def Json.encode (j : Json) : String := String.ofList (enc j)

/-! ## Strings

`readChar` undoes one escape.  It is only there to show that two escapes cannot
be confused. -/

def hexVal (c : Char) : Nat :=
  if c.isDigit then c.toNat - 48 else c.toNat - 87

theorem hexVal_hexDigit (n : Nat) : hexVal (hexDigit n) = n % 16 := by
  have h : ∀ m < 16, hexVal (Nat.digitChar m) = m := by decide
  exact h (n % 16) (Nat.mod_lt n (by omega))

def readHex (a b c d : Char) : Nat :=
  4096 * hexVal a + 256 * hexVal b + 16 * hexVal c + hexVal d

theorem readHex_hex4 {n : Nat} (h : n < 0x10000) :
    readHex (hexDigit (n / 4096)) (hexDigit (n / 256)) (hexDigit (n / 16)) (hexDigit n) = n := by
  simp only [readHex, hexVal_hexDigit]
  omega

def unescape (c : Char) : Char :=
  if c = 'n' then '\n' else if c = 'r' then '\r' else if c = 't' then '\t'
  else if c = 'b' then '\x08' else if c = 'f' then '\x0c' else c

def readLow (n : Nat) : List Char → Option (Char × List Char)
  | '\\' :: 'u' :: a :: b :: c :: d :: rest =>
    some (Char.ofNat (0x10000 + (n - 0xd800) * 0x400 + (readHex a b c d - 0xdc00)), rest)
  | _ => none

def readChar : List Char → Option (Char × List Char)
  | '\\' :: 'u' :: a :: b :: c :: d :: rest =>
    let n := readHex a b c d
    if 0xd800 ≤ n ∧ n < 0xdc00 then readLow n rest else some (Char.ofNat n, rest)
  | '\\' :: e :: rest => some (unescape e, rest)
  | c :: rest => some (c, rest)
  | [] => none

theorem readChar_escU {n : Nat} (h : n < 0x10000) (hs : ¬(0xd800 ≤ n ∧ n < 0xdc00))
    (r : List Char) : readChar (escU n ++ r) = some (Char.ofNat n, r) := by
  simp only [escU, hex4, List.cons_append, List.nil_append, readChar, readHex_hex4 h]
  rw [if_neg hs]

theorem readChar_surrogates {a b : Nat} (ha : 0xd800 ≤ a ∧ a < 0xdc00) (hb : b < 0x10000)
    (r : List Char) : readChar (escU a ++ escU b ++ r) =
      some (Char.ofNat (0x10000 + (a - 0xd800) * 0x400 + (b - 0xdc00)), r) := by
  simp only [escU, hex4, List.cons_append, List.nil_append, readChar,
    readHex_hex4 (show a < 0x10000 by omega)]
  rw [if_pos ha]
  simp only [readLow, readHex_hex4 hb]

theorem char_not_surrogate (c : Char) : ¬(0xd800 ≤ c.toNat ∧ c.toNat < 0xe000) := by
  have h := c.valid
  simp only [UInt32.isValidChar, Nat.isValidChar] at h
  change ¬(0xd800 ≤ c.val.toNat ∧ c.val.toNat < 0xe000)
  omega

theorem char_lt (c : Char) : c.toNat < 0x110000 := by
  have h := c.valid
  simp only [UInt32.isValidChar, Nat.isValidChar] at h
  change c.val.toNat < 0x110000
  omega

/-- An escape is a short one, the character itself, one `u` escape, or a pair of
them. -/
theorem escChar_cases (c : Char) :
    (∃ e, escChar c = ['\\', e] ∧ e ≠ 'u' ∧ unescape e = c) ∨
      (escChar c = [c] ∧ c ≠ '"' ∧ c ≠ '\\') ∨
      (escChar c = escU c.toNat ∧ c.toNat < 0x10000) ∨
      (escChar c = escU (0xd800 + (c.toNat - 0x10000) / 0x400) ++
        escU (0xdc00 + (c.toNat - 0x10000) % 0x400) ∧ 0x10000 ≤ c.toNat) := by
  have hshort : ∀ {d e : Char}, c = d → escChar d = ['\\', e] → (e == 'u') = false →
      unescape e = d → ∃ e, escChar c = ['\\', e] ∧ e ≠ 'u' ∧ unescape e = c :=
    fun hc hesc hu hback => ⟨_, hc ▸ hesc, beq_eq_false_iff_ne.mp hu, hc ▸ hback⟩
  by_cases h1 : c = '"'
  · exact Or.inl (hshort h1 rfl rfl rfl)
  by_cases h2 : c = '\\'
  · exact Or.inl (hshort h2 rfl rfl rfl)
  by_cases h3 : c = '\n'
  · exact Or.inl (hshort h3 rfl rfl rfl)
  by_cases h4 : c = '\r'
  · exact Or.inl (hshort h4 rfl rfl rfl)
  by_cases h5 : c = '\t'
  · exact Or.inl (hshort h5 rfl rfl rfl)
  by_cases h6 : c = '\x08'
  · exact Or.inl (hshort h6 rfl rfl rfl)
  by_cases h7 : c = '\x0c'
  · exact Or.inl (hshort h7 rfl rfl rfl)
  rw [escChar, if_neg h1, if_neg h2, if_neg h3, if_neg h4, if_neg h5, if_neg h6, if_neg h7]
  by_cases h8 : 32 ≤ c.toNat ∧ c.toNat ≤ 126
  · rw [if_pos h8]
    exact Or.inr (Or.inl ⟨rfl, h1, h2⟩)
  · rw [if_neg h8]
    by_cases h9 : c.toNat < 0x10000
    · rw [if_pos h9]
      exact Or.inr (Or.inr (Or.inl ⟨rfl, h9⟩))
    · rw [if_neg h9]
      exact Or.inr (Or.inr (Or.inr ⟨rfl, by omega⟩))

theorem readChar_short {e : Char} (h : e ≠ 'u') (r : List Char) :
    readChar ('\\' :: e :: r) = some (unescape e, r) := by
  rw [readChar]
  intro a b c d rest hu
  exact absurd hu h

theorem readChar_plain {c : Char} (h : c ≠ '\\') (r : List Char) :
    readChar (c :: r) = some (c, r) := by
  rw [readChar]
  · intro a b d e rest hb
    exact absurd hb h
  · intro e rest hb
    exact absurd hb h

theorem readChar_escChar (c : Char) (r : List Char) :
    readChar (escChar c ++ r) = some (c, r) := by
  rcases escChar_cases c with ⟨e, hc, hu, hback⟩ | ⟨hc, -, hb⟩ | ⟨hc, hlt⟩ | ⟨hc, hle⟩
  · rw [hc]
    show readChar ('\\' :: e :: r) = _
    rw [readChar_short hu, hback]
  · rw [hc]
    show readChar (c :: r) = _
    exact readChar_plain hb r
  · have hs := char_not_surrogate c
    rw [hc, readChar_escU hlt (by omega), Char.ofNat_toNat]
  · have hlt := char_lt c
    rw [hc, readChar_surrogates (by omega) (by omega)]
    have hn : 0x10000 + (0xd800 + (c.toNat - 0x10000) / 0x400 - 0xd800) * 0x400 +
        (0xdc00 + (c.toNat - 0x10000) % 0x400 - 0xdc00) = c.toNat := by omega
    rw [hn, Char.ofNat_toNat]

theorem escChar_append_inj {c d : Char} {r s : List Char}
    (h : escChar c ++ r = escChar d ++ s) : c = d ∧ r = s := by
  have hc := readChar_escChar c r
  rw [h, readChar_escChar d s] at hc
  simpa [eq_comm] using hc

/-- No escape starts with the quote that ends a string. -/
theorem escChar_head (c : Char) : ∃ a t, escChar c = a :: t ∧ a ≠ '"' := by
  rcases escChar_cases c with ⟨e, hc, -, -⟩ | ⟨hc, hq, -⟩ | ⟨hc, -⟩ | ⟨hc, -⟩
  · exact ⟨_, _, hc, by decide⟩
  · exact ⟨_, _, hc, hq⟩
  · exact ⟨_, _, hc, by decide⟩
  · exact ⟨_, _, hc, by decide⟩

theorem escStr_append_inj {cs ds r s : List Char}
    (h : escStr cs ++ r = escStr ds ++ s) : cs = ds ∧ r = s := by
  induction cs generalizing ds with
  | nil =>
    cases ds with
    | nil => exact ⟨rfl, by simpa [escStr] using h⟩
    | cons d ds =>
      obtain ⟨a, t, he, hne⟩ := escChar_head d
      simp only [escStr, he, List.cons_append, List.nil_append, List.cons.injEq] at h
      exact absurd h.1.symm hne
  | cons c cs ih =>
    cases ds with
    | nil =>
      obtain ⟨a, t, he, hne⟩ := escChar_head c
      simp only [escStr, he, List.cons_append, List.nil_append, List.cons.injEq] at h
      exact absurd h.1 hne
    | cons d ds =>
      simp only [escStr, List.append_assoc] at h
      obtain ⟨rfl, hrest⟩ := escChar_append_inj h
      obtain ⟨rfl, hr⟩ := ih hrest
      exact ⟨rfl, hr⟩

theorem encStr_append_inj {a b : String} {r s : List Char}
    (h : encStr a ++ r = encStr b ++ s) : a = b ∧ r = s := by
  simp only [encStr, List.cons_append, List.cons.injEq, true_and] at h
  obtain ⟨hab, hr⟩ := escStr_append_inj h
  exact ⟨String.toList_inj.mp hab, hr⟩

/-- What follows a number does not continue it. -/
def Ends (r : List Char) : Prop := ∀ c ∈ r.head?, numChar c = false

theorem append_inj_of_all {a b r s : List Char} (ha : a.all numChar) (hb : b.all numChar)
    (hr : Ends r) (hs : Ends s) (h : a ++ r = b ++ s) : a = b ∧ r = s := by
  induction a generalizing b with
  | nil =>
    cases b with
    | nil => exact ⟨rfl, h⟩
    | cons c b =>
      simp only [List.nil_append] at h
      simp only [List.all_cons, Bool.and_eq_true] at hb
      have hc := hr c (by rw [h]; rfl)
      rw [hb.1] at hc
      cases hc
  | cons c a ih =>
    simp only [List.all_cons, Bool.and_eq_true] at ha
    cases b with
    | nil =>
      simp only [List.nil_append] at h
      have hc := hs c (by rw [← h]; rfl)
      rw [ha.1] at hc
      cases hc
    | cons d b =>
      simp only [List.all_cons, Bool.and_eq_true] at hb
      simp only [List.cons_append, List.cons.injEq] at h
      obtain ⟨rfl, h⟩ := h
      obtain ⟨rfl, hrs⟩ := ih ha.2 hb.2 h
      exact ⟨rfl, hrs⟩

theorem natText_all (n : Nat) : ∀ c ∈ (Nat.repr n).toList, c.isDigit = true := by
  intro c hc
  rw [Nat.toList_repr] at hc
  exact Nat.isDigit_of_mem_toDigits (by omega) (by omega) hc

theorem intText_all (i : Int) : ∀ c ∈ (Int.repr i).toList, (c.isDigit || c == '-') = true := by
  intro c hc
  cases i with
  | ofNat n =>
    have h := natText_all n c hc
    simp [h]
  | negSucc n =>
    simp only [Int.repr, String.toList_append, List.mem_append] at hc
    rcases hc with hc | hc
    · have hc' : c = '-' := by simpa using hc
      subst hc'
      rfl
    · have h := natText_all (n + 1) c hc
      simp [h]

theorem intText_ne_nil (i : Int) : (Int.repr i).toList ≠ [] := by
  cases i with
  | ofNat n => simp [Int.repr, Nat.toList_repr]
  | negSucc n => simp [Int.repr, Nat.toList_repr]

theorem numChar_of_int {c : Char} (h : (c.isDigit || c == '-') = true) : numChar c = true := by
  rcases Bool.or_eq_true _ _ ▸ h with h | h
  · simp [numChar, h]
  · rw [beq_iff_eq] at h
    subst h
    decide

theorem intText_numChar (i : Int) : (Int.repr i).toList.all numChar = true :=
  List.all_eq_true.mpr fun c hc => numChar_of_int (intText_all i c hc)

theorem floatText_numChar (x : FloatLit) : x.text.toList.all numChar = true := by
  have h := x.wf
  cases ht : x.text.toList with
  | nil => rfl
  | cons c cs =>
    rw [ht] at h
    simp only [isFloatText, Bool.and_eq_true] at h
    exact h.1.2

theorem intText_ne_floatText (i : Int) (x : FloatLit) : (Int.repr i).toList ≠ x.text.toList := by
  intro h
  have hwf := x.wf
  have hall := intText_all i
  rw [h] at hall
  cases ht : x.text.toList with
  | nil => rw [ht] at hwf; cases hwf
  | cons c cs =>
    rw [ht] at hwf hall
    simp only [isFloatText, Bool.and_eq_true, List.any_eq_true] at hwf
    obtain ⟨d, hd, hnd⟩ := hwf.2
    rw [hall d hd] at hnd
    cases hnd

/-- What the first character of a text tells about the tree. -/
inductive Kind where
  | null | true | false | number | str | arr | obj | close
deriving DecidableEq

def Json.kind : Json → Kind
  | .null => .null
  | .bool b => if b then .true else .false
  | .int _ => .number
  | .float _ => .number
  | .str _ => .str
  | .arr _ => .arr
  | .obj _ => .obj

def headKind (c : Char) : Kind :=
  if c = 'n' then .null else if c = 't' then .true else if c = 'f' then .false
  else if c = '"' then .str else if c = '[' then .arr else if c = '{' then .obj
  else if c = ']' then .close else .number

theorem headKind_digit {c : Char} (h : c.isDigit = true) : headKind c = .number := by
  have hne : ∀ d : Char, d.isDigit = false → c ≠ d := by
    intro d hd hcd
    rw [hcd, hd] at h
    cases h
  rw [headKind, if_neg (hne 'n' rfl), if_neg (hne 't' rfl), if_neg (hne 'f' rfl),
    if_neg (hne '"' rfl), if_neg (hne '[' rfl), if_neg (hne '{' rfl), if_neg (hne ']' rfl)]

theorem enc_head (j : Json) : ∃ c t, enc j = c :: t ∧ headKind c = j.kind := by
  cases j with
  | null => exact ⟨_, _, rfl, rfl⟩
  | bool b => cases b <;> exact ⟨_, _, rfl, rfl⟩
  | int i =>
    cases ht : (Int.repr i).toList with
    | nil => exact absurd ht (intText_ne_nil i)
    | cons c t =>
      refine ⟨c, t, by rw [enc, ht], ?_⟩
      have hc := intText_all i c (by rw [ht]; exact List.mem_cons_self)
      rcases Bool.or_eq_true _ _ ▸ hc with hc | hc
      · exact headKind_digit hc
      · rw [beq_iff_eq] at hc
        subst hc
        rfl
  | float x =>
    have hwf := x.wf
    cases ht : x.text.toList with
    | nil => rw [ht] at hwf; cases hwf
    | cons c t =>
      refine ⟨c, t, by rw [enc, ht], ?_⟩
      rw [ht] at hwf
      simp only [isFloatText, Bool.and_eq_true, Bool.or_eq_true, beq_iff_eq] at hwf
      rcases hwf.1.1 with ((hc | hc) | hc) | hc
      · exact headKind_digit hc
      all_goals
        subst hc
        rfl
  | str s => exact ⟨_, _, rfl, rfl⟩
  | arr xs => exact ⟨_, _, rfl, rfl⟩
  | obj ms => exact ⟨_, _, rfl, rfl⟩

theorem kind_eq_of_enc_append {a b : Json} {r s : List Char} (h : enc a ++ r = enc b ++ s) :
    a.kind = b.kind := by
  obtain ⟨c, t, hc, hk⟩ := enc_head a
  obtain ⟨d, u, hd, hl⟩ := enc_head b
  rw [hc, hd, List.cons_append, List.cons_append, List.cons.injEq] at h
  rw [← hk, ← hl, h.1]

theorem enc_ne_close (j : Json) (r s : List Char) : enc j ++ r ≠ ']' :: s := by
  obtain ⟨c, t, hc, hk⟩ := enc_head j
  rw [hc, List.cons_append, ne_eq, List.cons.injEq]
  rintro ⟨rfl, -⟩
  cases j with
  | bool b => cases b <;> cases hk
  | _ => cases hk

theorem ends_elemsRest (xs : List Json) (r : List Char) : Ends (encElemsRest xs ++ r) := by
  cases xs <;>
  · intro c hc
    simp only [encElemsRest, List.cons_append, List.head?_cons, Option.mem_def,
      Option.some.injEq] at hc
    subst hc
    decide

theorem ends_membersRest (ms : List (String × Json)) (r : List Char) :
    Ends (encMembersRest ms ++ r) := by
  rcases ms with _ | ⟨⟨k, v⟩, ms⟩ <;>
  · intro c hc
    simp only [encMembersRest, List.cons_append, List.head?_cons, Option.mem_def,
      Option.some.injEq] at hc
    subst hc
    decide

theorem numChar_of_number {j : Json} (h : j.kind = .number) : (enc j).all numChar = true := by
  cases j with
  | int i =>
    rw [enc]
    exact intText_numChar i
  | float x =>
    rw [enc]
    exact floatText_numChar x
  | bool b => cases b <;> cases h
  | _ => cases h

theorem number_eq_of_enc_eq {a b : Json} (ha : a.kind = .number) (hb : b.kind = .number)
    (h : enc a = enc b) : a = b := by
  cases a with
  | int i =>
    cases b with
    | int k =>
      rw [enc, enc] at h
      rw [Int.repr_injective (String.toList_inj.mp h)]
    | float x =>
      rw [enc, enc] at h
      exact absurd h (intText_ne_floatText i x)
    | bool d => cases d <;> cases hb
    | _ => cases hb
  | float x =>
    cases b with
    | int k =>
      rw [enc, enc] at h
      exact absurd h.symm (intText_ne_floatText k x)
    | float y =>
      rw [enc, enc] at h
      obtain ⟨tx, wx⟩ := x
      obtain ⟨ty, wy⟩ := y
      obtain rfl : tx = ty := String.toList_inj.mp h
      rfl
    | bool d => cases d <;> cases hb
    | _ => cases hb
  | bool c => cases c <;> cases ha
  | _ => cases ha

mutual
/-- The text of a tree is recognised at the head of any text in which it is
followed by something that ends a value. -/
theorem enc_append_inj (a b : Json) {r s : List Char} (hr : Ends r) (hs : Ends s)
    (h : enc a ++ r = enc b ++ s) : a = b ∧ r = s := by
  have hk := kind_eq_of_enc_append h
  by_cases hn : a.kind = .number
  · have hn' : b.kind = .number := hk ▸ hn
    obtain ⟨hab, hrs⟩ :=
      append_inj_of_all (numChar_of_number hn) (numChar_of_number hn') hr hs h
    exact ⟨number_eq_of_enc_eq hn hn' hab, hrs⟩
  cases a with
  | int i => exact absurd rfl hn
  | float x => exact absurd rfl hn
  | null =>
    cases b with
    | null => exact ⟨rfl, List.append_cancel_left h⟩
    | bool d => cases d <;> cases hk
    | _ => cases hk
  | bool c =>
    cases b with
    | bool d =>
      cases c <;> cases d <;> first | exact ⟨rfl, List.append_cancel_left h⟩ | cases hk
    | _ => cases c <;> cases hk
  | str t =>
    cases b with
    | str u =>
      rw [enc, enc] at h
      obtain ⟨rfl, hrs⟩ := encStr_append_inj h
      exact ⟨rfl, hrs⟩
    | bool d => cases d <;> cases hk
    | _ => cases hk
  | arr xs =>
    cases b with
    | arr ys =>
      simp only [enc, List.cons_append, List.cons.injEq, true_and] at h
      obtain ⟨rfl, hrs⟩ := encElems_append_inj xs ys h
      exact ⟨rfl, hrs⟩
    | bool d => cases d <;> cases hk
    | _ => cases hk
  | obj ms =>
    cases b with
    | obj ns =>
      simp only [enc, List.cons_append, List.cons.injEq, true_and] at h
      obtain ⟨rfl, hrs⟩ := encMembers_append_inj ms ns h
      exact ⟨rfl, hrs⟩
    | bool d => cases d <;> cases hk
    | _ => cases hk
termination_by structural a

theorem encElems_append_inj (xs ys : List Json) {r s : List Char}
    (h : encElems xs ++ r = encElems ys ++ s) : xs = ys ∧ r = s := by
  match xs, ys with
  | [], [] => exact ⟨rfl, by simpa [encElems] using h⟩
  | [], y :: ys =>
    simp only [encElems, List.cons_append, List.nil_append, List.append_assoc] at h
    exact absurd h.symm (enc_ne_close y _ _)
  | x :: xs, [] =>
    simp only [encElems, List.cons_append, List.nil_append, List.append_assoc] at h
    exact absurd h (enc_ne_close x _ _)
  | x :: xs, y :: ys =>
    simp only [encElems, List.append_assoc] at h
    obtain ⟨rfl, h'⟩ := enc_append_inj x y (ends_elemsRest xs r) (ends_elemsRest ys s) h
    obtain ⟨rfl, hrs⟩ := encElemsRest_append_inj xs ys h'
    exact ⟨rfl, hrs⟩
termination_by structural xs

theorem encElemsRest_append_inj (xs ys : List Json) {r s : List Char}
    (h : encElemsRest xs ++ r = encElemsRest ys ++ s) : xs = ys ∧ r = s := by
  match xs, ys with
  | [], [] => exact ⟨rfl, by simpa [encElemsRest] using h⟩
  | [], y :: ys => simp [encElemsRest] at h
  | x :: xs, [] => simp [encElemsRest] at h
  | x :: xs, y :: ys =>
    simp only [encElemsRest, List.cons_append, List.append_assoc, List.cons.injEq,
      true_and] at h
    obtain ⟨rfl, h'⟩ := enc_append_inj x y (ends_elemsRest xs r) (ends_elemsRest ys s) h
    obtain ⟨rfl, hrs⟩ := encElemsRest_append_inj xs ys h'
    exact ⟨rfl, hrs⟩
termination_by structural xs

theorem encMembers_append_inj (ms ns : List (String × Json)) {r s : List Char}
    (h : encMembers ms ++ r = encMembers ns ++ s) : ms = ns ∧ r = s := by
  match ms, ns with
  | [], [] => exact ⟨rfl, by simpa [encMembers] using h⟩
  | [], (l, w) :: ns => simp [encMembers, encStr] at h
  | (k, v) :: ms, [] => simp [encMembers, encStr] at h
  | (k, v) :: ms, (l, w) :: ns =>
    simp only [encMembers, List.append_assoc, List.cons_append] at h
    obtain ⟨rfl, hv⟩ := encStr_append_inj h
    simp only [List.cons.injEq, true_and] at hv
    obtain ⟨rfl, h'⟩ := enc_append_inj v w (ends_membersRest ms r) (ends_membersRest ns s) hv
    obtain ⟨rfl, hrs⟩ := encMembersRest_append_inj ms ns h'
    exact ⟨rfl, hrs⟩
termination_by structural ms

theorem encMembersRest_append_inj (ms ns : List (String × Json)) {r s : List Char}
    (h : encMembersRest ms ++ r = encMembersRest ns ++ s) : ms = ns ∧ r = s := by
  match ms, ns with
  | [], [] => exact ⟨rfl, by simpa [encMembersRest] using h⟩
  | [], (l, w) :: ns => simp [encMembersRest] at h
  | (k, v) :: ms, [] => simp [encMembersRest] at h
  | (k, v) :: ms, (l, w) :: ns =>
    simp only [encMembersRest, List.append_assoc, List.cons_append, List.cons.injEq,
      true_and] at h
    obtain ⟨rfl, hv⟩ := encStr_append_inj h
    simp only [List.cons.injEq, true_and] at hv
    obtain ⟨rfl, h'⟩ := enc_append_inj v w (ends_membersRest ms r) (ends_membersRest ns s) hv
    obtain ⟨rfl, hrs⟩ := encMembersRest_append_inj ms ns h'
    exact ⟨rfl, hrs⟩
termination_by structural ms

end

theorem ends_nil : Ends [] := by
  intro c hc
  cases hc

/-- The text determines the tree. -/
theorem encode_injective : Function.Injective Json.encode := by
  intro a b h
  have he : enc a ++ [] = enc b ++ [] := by
    rw [List.append_nil, List.append_nil]
    exact String.ofList_injective h
  exact (enc_append_inj a b ends_nil ends_nil he).1

/-- An object carries its own end, so objects written one after the other can be
told apart. -/
theorem enc_obj_append_inj {ms ns : List (String × Json)} {r s : List Char}
    (h : enc (.obj ms) ++ r = enc (.obj ns) ++ s) : ms = ns ∧ r = s := by
  simp only [enc, List.cons_append, List.cons.injEq, true_and] at h
  exact encMembers_append_inj ms ns h

end Lib
