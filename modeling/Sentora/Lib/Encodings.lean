import Mathlib.Data.List.SplitBy
import Sentora.Lib.JsonReader

namespace Lib

namespace Base64

inductive Alphabet where
  | standard
  | urlSafe
deriving DecidableEq

/-- `A` to `Z`, `a` to `z`, `0` to `9` and two characters more. -/
def Alphabet.digit (a : Alphabet) (v : Nat) : Char :=
  if v < 26 then Char.ofNat (v + 65)
  else if v < 52 then Char.ofNat (v + 71)
  else if v < 62 then Char.ofNat (v - 4)
  else
    match a with
    | .standard => if v = 62 then '+' else '/'
    | .urlSafe => if v = 62 then '-' else '_'

/-- The bits of a text, six at a time. -/
def sextets : List UInt8 → List Nat
  | [] => []
  | [a] => [a.toNat / 4, a.toNat % 4 * 16]
  | [a, b] => [a.toNat / 4, a.toNat % 4 * 16 + b.toNat / 16, b.toNat % 16 * 4]
  | a :: b :: c :: rest =>
    a.toNat / 4 :: (a.toNat % 4 * 16 + b.toNat / 16) :: (b.toNat % 16 * 4 + c.toNat / 64) ::
      c.toNat % 64 :: sextets rest

def padding (length : Nat) : List Char := List.replicate ((4 - length % 4) % 4) '='

/-- The text without padding. -/
def encode (a : Alphabet) (bytes : List UInt8) : List Char := (sextets bytes).map a.digit

def encodePadded (a : Alphabet) (bytes : List UInt8) : List Char :=
  encode a bytes ++ padding (encode a bytes).length

def value (c : Char) : Option Nat :=
  if 'A' ≤ c ∧ c ≤ 'Z' then some (c.toNat - 65)
  else if 'a' ≤ c ∧ c ≤ 'z' then some (c.toNat - 71)
  else if '0' ≤ c ∧ c ≤ '9' then some (c.toNat + 4)
  else if c = '+' then some 62
  else if c = '/' then some 63
  else none

/-- The position in a group of four, and the bits that are left over. -/
inductive Quad where
  | zero
  | one (left : Nat)
  | two (left : Nat)
  | three (left : Nat)

def Quad.pos : Quad → Nat
  | .zero => 0
  | .one _ => 1
  | .two _ => 2
  | .three _ => 3

structure Decoder where
  quad : Quad := .zero
  pads : Nat := 0
  out : List UInt8 := []

inductive DecodeError where
  /-- The number of data characters. -/
  | oneMore (characters : Nat)
  | incorrectPadding
deriving DecidableEq

def DecodeError.message : DecodeError → String
  | .oneMore characters =>
    "Invalid base64-encoded string: number of data characters (" ++ toString characters ++
      ") cannot be 1 more than a multiple of 4"
  | .incorrectPadding => "Incorrect padding"

namespace Decoder

def put (d : Decoder) (v : Nat) : Decoder :=
  match d.quad with
  | .zero => ⟨.one v, 0, d.out⟩
  | .one left => ⟨.two (v % 16), 0, d.out ++ [UInt8.ofNat (left * 4 + v / 16)]⟩
  | .two left => ⟨.three (v % 4), 0, d.out ++ [UInt8.ofNat (left * 16 + v / 4)]⟩
  | .three left => ⟨.zero, 0, d.out ++ [UInt8.ofNat (left * 64 + v)]⟩

def finish (d : Decoder) : Except DecodeError (List UInt8) :=
  match d.quad with
  | .zero => .ok d.out
  | .one _ => .error (.oneMore (d.out.length / 3 * 4 + 1))
  | _ => .error .incorrectPadding

def read (d : Decoder) : List Char → Except DecodeError (List UInt8)
  | [] => d.finish
  | c :: cs =>
    if c = '=' then
      if 2 ≤ d.quad.pos then
        if 4 ≤ d.quad.pos + (d.pads + 1) then .ok d.out
        else ({ d with pads := d.pads + 1 } : Decoder).read cs
      else d.read cs
    else
      match value c with
      | none => d.read cs
      | some v => (d.put v).read cs

end Decoder

def decode (cs : List Char) : Except DecodeError (List UInt8) := ({} : Decoder).read cs

theorem value_digit {v : Nat} (h : v < 64) : value (Alphabet.standard.digit v) = some v := by
  have hall : ∀ v < 64, value (Alphabet.standard.digit v) = some v := by decide +kernel
  exact hall v h

theorem value_digit_urlSafe {v : Nat} (h : v < 64) :
    value (Alphabet.urlSafe.digit v) = if v < 62 then some v else none := by
  have hall : ∀ v < 64, value (Alphabet.urlSafe.digit v) = if v < 62 then some v else none := by
    decide +kernel
  exact hall v h

theorem digit_ne_pad {a : Alphabet} {v : Nat} (h : v < 64) : a.digit v ≠ '=' := by
  have hall : ∀ v < 64, a.digit v ≠ '=' := by
    cases a with
    | standard => decide +kernel
    | urlSafe => decide +kernel
  exact hall v h

theorem lt_of_mem_sextets {bytes : List UInt8} {v : Nat} (h : v ∈ sextets bytes) : v < 64 := by
  fun_induction sextets bytes with
  | case1 => cases h
  | case2 a =>
    have ha := a.toNat_lt
    rw [List.mem_cons, List.mem_singleton] at h
    omega
  | case3 a b =>
    have ha := a.toNat_lt
    have hb := b.toNat_lt
    rw [List.mem_cons, List.mem_cons, List.mem_singleton] at h
    omega
  | case4 a b c rest ih =>
    have ha := a.toNat_lt
    have hb := b.toNat_lt
    have hc := c.toNat_lt
    rw [List.mem_cons, List.mem_cons, List.mem_cons, List.mem_cons] at h
    rcases h with h | h | h | h | h
    · omega
    · omega
    · omega
    · omega
    · exact ih h

section Reading

variable {d : Decoder} {bytes out : List UInt8} {cs rest : List Char} {vs : List Nat}
variable {a : Alphabet} {n : Nat}

theorem read_append (h : ∀ c ∈ cs, c ≠ '=') :
    d.read (cs ++ rest) = ((cs.filterMap value).foldl Decoder.put d).read rest := by
  induction cs generalizing d with
  | nil => rfl
  | cons c cs ih =>
    obtain ⟨hc, hcs⟩ := List.forall_mem_cons.mp h
    rw [List.cons_append, Decoder.read, if_neg hc]
    cases hv : value c with
    | none =>
      rw [List.filterMap_cons_none hv]
      exact ih hcs
    | some v =>
      rw [List.filterMap_cons_some hv, List.foldl_cons]
      exact ih hcs

theorem out_of_read_replicate (h : d.read (List.replicate n '=') = .ok out) :
    out = d.out := by
  induction n generalizing d with
  | zero =>
    rw [List.replicate_zero, Decoder.read, Decoder.finish] at h
    split at h
    · exact (Except.ok.inj h).symm
    · cases h
    · cases h
  | succ n ih =>
    rw [List.replicate_succ, Decoder.read, if_pos rfl] at h
    split at h
    · split at h
      · exact (Except.ok.inj h).symm
      · exact ih (d := { d with pads := d.pads + 1 }) h
    · exact ih h

def written (n : Nat) : Nat := n / 4 * 3 + (n % 4 - 1)

structure Counts (n : Nat) (d : Decoder) : Prop where
  pos : d.quad.pos = n % 4
  out : d.out.length = written n

theorem Counts.put {n v : Nat} (h : Counts n d) : Counts (n + 1) (d.put v) := by
  obtain ⟨hpos, hout⟩ := h
  unfold written at hout
  cases hq : d.quad with
  | zero =>
    rw [hq, Quad.pos] at hpos
    simp only [Decoder.put, hq]
    refine ⟨?_, ?_⟩
    · show 1 = (n + 1) % 4
      omega
    · rw [hout, written]
      omega
  | one left =>
    rw [hq, Quad.pos] at hpos
    simp only [Decoder.put, hq]
    refine ⟨?_, ?_⟩
    · show 2 = (n + 1) % 4
      omega
    · rw [List.length_append, hout, written, List.length_singleton]
      omega
  | two left =>
    rw [hq, Quad.pos] at hpos
    simp only [Decoder.put, hq]
    refine ⟨?_, ?_⟩
    · show 3 = (n + 1) % 4
      omega
    · rw [List.length_append, hout, written, List.length_singleton]
      omega
  | three left =>
    rw [hq, Quad.pos] at hpos
    simp only [Decoder.put, hq]
    refine ⟨?_, ?_⟩
    · show 0 = (n + 1) % 4
      omega
    · rw [List.length_append, hout, written, List.length_singleton]
      omega

theorem Counts.foldl (h : Counts n d) : Counts (n + vs.length) (vs.foldl .put d) := by
  induction vs generalizing n d with
  | nil => exact h
  | cons v vs ih =>
    have hnext := ih (h.put (v := v))
    rw [List.foldl_cons, List.length_cons]
    rwa [Nat.add_assoc, Nat.add_comm 1] at hnext

theorem counts_foldl (vs : List Nat) : Counts vs.length (vs.foldl .put {}) := by
  have hstart : Counts 0 ({} : Decoder) := ⟨rfl, rfl⟩
  have hend : Counts (0 + vs.length) (vs.foldl .put {}) := hstart.foldl
  rwa [Nat.zero_add] at hend

theorem length_sextets : (sextets bytes).length % 4 ≠ 1 ∧
    written (sextets bytes).length = bytes.length := by
  unfold written
  fun_induction sextets bytes with
  | case1 => decide
  | case2 a => exact ⟨by simp, by simp⟩
  | case3 a b => exact ⟨by simp, by simp⟩
  | case4 a b c rest ih =>
    simp only [List.length_cons]
    omega

theorem written_lt {m n : Nat} (hlt : m < n) (hn : n % 4 ≠ 1) : written m < written n := by
  unfold written
  omega

theorem foldl_put_sextets {p : Nat} :
    ((sextets bytes).foldl Decoder.put ⟨.zero, p, out⟩).out = out ++ bytes := by
  fun_induction sextets bytes generalizing p out with
  | case1 => exact (List.append_nil out).symm
  | case2 a =>
    have ha := a.toNat_lt
    have hbits : a.toNat / 4 * 4 + a.toNat % 4 * 16 / 16 = a.toNat := by omega
    simp only [List.foldl_cons, List.foldl_nil, Decoder.put, hbits, UInt8.ofNat_toNat]
  | case3 a b =>
    have ha := a.toNat_lt
    have hb := b.toNat_lt
    have hfirst : a.toNat / 4 * 4 + (a.toNat % 4 * 16 + b.toNat / 16) / 16 = a.toNat := by omega
    have hsecond : (a.toNat % 4 * 16 + b.toNat / 16) % 16 * 16 + b.toNat % 16 * 4 / 4 =
        b.toNat := by omega
    simp only [List.foldl_cons, List.foldl_nil, Decoder.put, hfirst, hsecond, UInt8.ofNat_toNat,
      List.append_assoc, List.cons_append, List.nil_append]
  | case4 a b c rest ih =>
    have ha := a.toNat_lt
    have hb := b.toNat_lt
    have hc := c.toNat_lt
    have hfirst : a.toNat / 4 * 4 + (a.toNat % 4 * 16 + b.toNat / 16) / 16 = a.toNat := by omega
    have hsecond : (a.toNat % 4 * 16 + b.toNat / 16) % 16 * 16 +
        (b.toNat % 16 * 4 + c.toNat / 64) / 4 = b.toNat := by omega
    have hthird : (b.toNat % 16 * 4 + c.toNat / 64) % 4 * 64 + c.toNat % 64 = c.toNat := by omega
    simp only [List.foldl_cons, Decoder.put, hfirst, hsecond, hthird, UInt8.ofNat_toNat]
    rw [ih]
    simp only [List.append_assoc, List.cons_append, List.nil_append]

theorem read_padding (h : Counts n d) (hn : n % 4 ≠ 1) (hpads : d.pads = 0) :
    d.read (padding n) = .ok d.out := by
  have hpos := h.pos
  obtain ⟨quad, pads, written⟩ := d
  dsimp only at hpads hpos
  rw [hpads]
  cases quad with
  | zero =>
    have hzero : (4 - n % 4) % 4 = 0 := by
      rw [← hpos]
      rfl
    rw [padding, hzero]
    rfl
  | one left => exact absurd hpos.symm hn
  | two left =>
    have htwo : (4 - n % 4) % 4 = 2 := by
      rw [← hpos]
      rfl
    rw [padding, htwo]
    rfl
  | three left =>
    have hone : (4 - n % 4) % 4 = 1 := by
      rw [← hpos]
      rfl
    rw [padding, hone]
    rfl

theorem pads_foldl (h : d.pads = 0) : (vs.foldl Decoder.put d).pads = 0 := by
  induction vs generalizing d with
  | nil => exact h
  | cons v vs ih =>
    refine ih ?_
    rw [Decoder.put]
    split
    · rfl
    · rfl
    · rfl
    · rfl

theorem filterMap_value_encode : (encode a bytes).filterMap value =
    match a with
    | .standard => sextets bytes
    | .urlSafe => (sextets bytes).filter (· < 62) := by
  rw [encode, List.filterMap_map]
  cases a with
  | standard =>
    calc (sextets bytes).filterMap (value ∘ Alphabet.standard.digit)
        = (sextets bytes).filterMap some :=
          List.filterMap_congr fun v hv => value_digit (lt_of_mem_sextets hv)
      _ = sextets bytes := List.filterMap_some
  | urlSafe =>
    calc (sextets bytes).filterMap (value ∘ Alphabet.urlSafe.digit)
        = (sextets bytes).filterMap (Option.guard (· < 62)) :=
          List.filterMap_congr fun v hv => by
            rw [Function.comp_apply, value_digit_urlSafe (lt_of_mem_sextets hv), Option.guard]
            simp only [decide_eq_true_eq]
      _ = (sextets bytes).filter (· < 62) := by rw [List.filterMap_eq_filter]

theorem ne_pad_of_mem_encode : ∀ c ∈ encode a bytes, c ≠ '=' := by
  intro c hc
  obtain ⟨v, hv, rfl⟩ := List.mem_map.mp hc
  exact digit_ne_pad (lt_of_mem_sextets hv)

theorem length_encode : (encode a bytes).length = (sextets bytes).length :=
  List.length_map _

theorem decode_of_sextets
    (h : (encode a bytes).filterMap value = sextets bytes) :
    decode (encodePadded a bytes) = .ok bytes := by
  rw [decode, encodePadded, read_append ne_pad_of_mem_encode, h, length_encode,
    read_padding (counts_foldl _) length_sextets.1 (pads_foldl rfl), foldl_put_sextets,
    List.nil_append]

theorem decode_standard : decode (encodePadded .standard bytes) = .ok bytes :=
  decode_of_sextets filterMap_value_encode

/-- The decoder reads a text in the other alphabet back if and only if the alphabets agree on
it: otherwise it skips characters and writes fewer bytes, or fails. -/
theorem decode_urlSafe_iff :
    decode (encodePadded .urlSafe bytes) = .ok bytes ↔ ∀ v ∈ sextets bytes, v < 62 := by
  constructor
  · intro hok
    rw [decode, encodePadded, read_append ne_pad_of_mem_encode, filterMap_value_encode] at hok
    have hlength := (counts_foldl ((sextets bytes).filter (· < 62))).out
    rw [← out_of_read_replicate hok, ← length_sextets.2] at hlength
    by_contra hskips
    have hlt : ((sextets bytes).filter (· < 62)).length < (sextets bytes).length := by
      refine Nat.lt_of_le_of_ne (List.length_filter_le _ _) fun heq => hskips ?_
      have hself := List.filter_eq_self.mp (List.filter_sublist.eq_of_length heq)
      exact fun v hv => of_decide_eq_true (hself v hv)
    exact absurd hlength (Nat.ne_of_gt (written_lt hlt length_sextets.1))
  · intro hall
    refine decode_of_sextets (filterMap_value_encode.trans ?_)
    exact List.filter_eq_self.mpr fun v hv => decide_eq_true (hall v hv)

theorem decode_urlSafe_error
    (h : ((sextets bytes).countP fun v => ¬v < 62) % 4 = 1) :
    ∃ e, decode (encodePadded .urlSafe bytes) = .error e := by
  have htotal : ((sextets bytes).filter (· < 62)).length +
      ((sextets bytes).countP fun v => ¬v < 62) = (sextets bytes).length := by
    have hsplit := List.length_eq_countP_add_countP (fun v => decide (v < 62)) (l := sextets bytes)
    simp only [decide_eq_true_eq] at hsplit
    rw [← List.countP_eq_length_filter]
    exact hsplit.symm
  have hpads : (((sextets bytes).filter (· < 62)).foldl Decoder.put {}).pads = 0 :=
    pads_foldl rfl
  have hpos := (counts_foldl ((sextets bytes).filter (· < 62))).pos
  have hthree : (sextets bytes).length % 4 ≠ 1 := length_sextets.1
  rw [decode, encodePadded, read_append ne_pad_of_mem_encode, filterMap_value_encode,
    length_encode]
  dsimp only
  generalize ((sextets bytes).filter (· < 62)).foldl Decoder.put {} = d at hpads hpos
  obtain ⟨quad, pads, out⟩ := d
  dsimp only at hpads hpos
  rw [hpads, padding]
  cases quad with
  | zero =>
    rw [Quad.pos] at hpos
    omega
  | one left =>
    have htwo : (4 - (sextets bytes).length % 4) % 4 = 2 := by
      rw [Quad.pos] at hpos
      omega
    rw [htwo]
    exact ⟨_, rfl⟩
  | two left =>
    have hone : (4 - (sextets bytes).length % 4) % 4 = 1 := by
      rw [Quad.pos] at hpos
      omega
    rw [hone]
    exact ⟨_, rfl⟩
  | three left =>
    have hzero : (4 - (sextets bytes).length % 4) % 4 = 0 := by
      rw [Quad.pos] at hpos
      omega
    rw [hzero]
    exact ⟨_, rfl⟩

end Reading

end Base64

namespace Percent

def isAscii (c : Char) : Bool := c.toNat < 128

/-- The bytes of a text in ASCII.  A percent sign without two digits stands for itself. -/
def toBytes : List Char → List UInt8
  | '%' :: a :: b :: rest =>
    match hexDigitValue a, hexDigitValue b with
    | some x, some y => UInt8.ofNat (16 * x + y) :: toBytes rest
    | _, _ => 37 :: toBytes (a :: b :: rest)
  | c :: rest => UInt8.ofNat c.toNat :: toBytes rest
  | [] => []

/-- The number of bytes after a first byte, what the first of them may be, and the bits of the
first byte. -/
def leadByte (b : Nat) : Option (Nat × Nat × Nat × Nat) :=
  if 0xc2 ≤ b ∧ b < 0xe0 then some (1, 0x80, 0xbf, b - 0xc0)
  else if b = 0xe0 then some (2, 0xa0, 0xbf, 0)
  else if b = 0xed then some (2, 0x80, 0x9f, 0xd)
  else if 0xe0 < b ∧ b < 0xf0 then some (2, 0x80, 0xbf, b - 0xe0)
  else if b = 0xf0 then some (3, 0x90, 0xbf, 0)
  else if 0xf0 < b ∧ b < 0xf4 then some (3, 0x80, 0xbf, b - 0xf0)
  else if b = 0xf4 then some (3, 0x80, 0x8f, 4)
  else none

/-- The character that some more bytes complete, if they do, and what is left. -/
def followBytes : Nat → Nat → Nat → Nat → List UInt8 → Option Char × List UInt8
  | 0, _, _, bits, rest => (some (Char.ofNat bits), rest)
  | _ + 1, _, _, _, [] => (none, [])
  | k + 1, low, high, bits, b :: rest =>
    if low ≤ b.toNat ∧ b.toNat ≤ high then
      followBytes k 0x80 0xbf (bits * 64 + b.toNat % 64) rest
    else (none, b :: rest)

/-- UTF-8, with a replacement character for each part that is none. -/
def decodeReplacing : Nat → List UInt8 → List Char
  | 0, _ => []
  | _ + 1, [] => []
  | n + 1, b :: rest =>
    if b.toNat < 128 then Char.ofNat b.toNat :: decodeReplacing n rest
    else
      match leadByte b.toNat with
      | none => '\ufffd' :: decodeReplacing n rest
      | some (k, low, high, bits) =>
        let (c, rest) := followBytes k low high bits rest
        c.getD '\ufffd' :: decodeReplacing n rest

/-- The parts of the text in ASCII are decoded, the others kept. -/
def unquote (s : List Char) : List Char :=
  if '%' ∈ s then
    (s.splitBy fun a b => isAscii a = isAscii b).flatMap fun run =>
      if run.all isAscii then decodeReplacing (toBytes run).length (toBytes run) else run
  else s

/-- A text with some of its characters, which are one byte each, percent-encoded. -/
inductive Spells : List Char → List Char → Prop where
  | nil : Spells [] []
  | plain {s t : List Char} (c : Char) (hc : c ≠ '%') (h : Spells s t) : Spells (c :: s) (c :: t)
  | encoded {s t : List Char} (c a b : Char) {x y : Nat} (ha : hexDigitValue a = some x)
    (hb : hexDigitValue b = some y) (hc : c.toNat = 16 * x + y) (h : Spells s t) :
    Spells ('%' :: a :: b :: s) (c :: t)

section Spelling

variable {s t : List Char}

theorem spells_self (h : '%' ∉ t) : Spells t t := by
  induction t with
  | nil => exact .nil
  | cons c t ih =>
    rw [List.mem_cons, not_or] at h
    exact .plain c (Ne.symm h.1) (ih h.2)

theorem isAscii_of_hexDigitValue {a : Char} {x : Nat} (h : hexDigitValue a = some x) :
    isAscii a = true := by
  have hlt : a.toNat < 128 := by
    unfold hexDigitValue at h
    split at h
    · rename_i hdigit
      exact Nat.lt_of_le_of_lt (Char.le_def.mp hdigit.2) (by decide)
    · split at h
      · rename_i hlower
        exact Nat.lt_of_le_of_lt (Char.le_def.mp hlower.2) (by decide)
      · split at h
        · rename_i hupper
          exact Nat.lt_of_le_of_lt (Char.le_def.mp hupper.2) (by decide)
        · cases h
  exact decide_eq_true hlt

theorem Spells.isAscii (h : Spells s t) (ht : ∀ c ∈ t, isAscii c = true) :
    ∀ c ∈ s, Percent.isAscii c = true := by
  induction h with
  | nil => exact ht
  | plain c hc h ih =>
    rw [List.forall_mem_cons] at ht ⊢
    exact ⟨ht.1, ih ht.2⟩
  | encoded c a b ha hb hc h ih =>
    rw [List.forall_mem_cons] at ht
    rw [List.forall_mem_cons, List.forall_mem_cons, List.forall_mem_cons]
    exact ⟨rfl, isAscii_of_hexDigitValue ha, isAscii_of_hexDigitValue hb, ih ht.2⟩

theorem Spells.eq_of_not_mem (h : Spells s t) (hs : '%' ∉ s) : s = t := by
  induction h with
  | nil => rfl
  | plain c hc h ih => rw [ih fun hmem => hs (List.mem_cons_of_mem c hmem)]
  | encoded c a b ha hb hc h ih => exact absurd List.mem_cons_self hs

theorem Spells.toBytes_eq (h : Spells s t) :
    toBytes s = t.map fun c => UInt8.ofNat c.toNat := by
  induction h with
  | nil => rfl
  | plain c hc h ih =>
    rw [toBytes, ih, List.map_cons]
    intro a b rest hpercent
    exact absurd hpercent hc
  | encoded c a b ha hb hc h ih => rw [toBytes, ha, hb, List.map_cons, hc, ih]

theorem decodeReplacing_ascii (ht : ∀ c ∈ t, isAscii c = true) :
    decodeReplacing t.length (t.map fun c => UInt8.ofNat c.toNat) = t := by
  induction t with
  | nil => rfl
  | cons c t ih =>
    obtain ⟨hc, ht⟩ := List.forall_mem_cons.mp ht
    have hlt : c.toNat < 128 := of_decide_eq_true hc
    have hbyte : (UInt8.ofNat c.toNat).toNat = c.toNat :=
      UInt8.toNat_ofNat_of_lt (by show c.toNat < 256; omega)
    rw [List.length_cons, List.map_cons, decodeReplacing, if_pos (by omega), ih ht, hbyte,
      Char.ofNat_toNat]

theorem Spells.unquote_eq (h : Spells s t) (ht : ∀ c ∈ t, Percent.isAscii c = true) :
    unquote s = t := by
  rw [unquote]
  split
  · rename_i hpercent
    have hs := h.isAscii ht
    have hne : s ≠ [] := List.ne_nil_of_mem hpercent
    have hone : (s.splitBy fun a b => Percent.isAscii a = Percent.isAscii b) = [s] := by
      refine List.splitBy_of_isChain hne (List.Pairwise.isChain ?_)
      refine List.pairwise_of_forall_mem_list fun a ha b hb => ?_
      exact decide_eq_true ((hs a ha).trans (hs b hb).symm)
    rw [hone, List.flatMap_singleton, if_pos (List.all_eq_true.mpr hs), h.toBytes_eq,
      List.length_map, decodeReplacing_ascii ht]
  · exact h.eq_of_not_mem ‹_›

end Spelling

end Percent

end Lib
