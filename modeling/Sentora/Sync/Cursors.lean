import Sentora.Lib.Encodings

/-!
# Cursors

`parse_cursor` and `_make_cursor` of `domains/sync/s1_client.py`: a cursor is the text of a JSON
object in base64, sometimes percent-encoded.
-/

namespace Sentora.Sync

open Lib

inductive CursorError where
  | notAscii
  | binascii (e : Base64.DecodeError)
  | unicodeDecode
  | jsonDecode
deriving DecidableEq

def CursorError.message : CursorError → String
  | .notAscii => "string argument should contain only ASCII characters"
  | .binascii e => e.message
  | .unicodeDecode => "invalid bytes"
  | .jsonDecode => "invalid JSON"

inductive Encoding where
  | utf8
  | utf8Sig
  | utf16
  | utf16be
  | utf16le
  | utf32
  | utf32be
  | utf32le
deriving DecidableEq

/-- `json.detect_encoding`. -/
def detectEncoding (b : List UInt8) : Encoding :=
  if [0, 0, 0xfe, 0xff] <+: b ∨ [0xff, 0xfe, 0, 0] <+: b then .utf32
  else if [0xfe, 0xff] <+: b ∨ [0xff, 0xfe] <+: b then .utf16
  else if [0xef, 0xbb, 0xbf] <+: b then .utf8Sig
  else
    match b with
    | b0 :: b1 :: b2 :: b3 :: _ =>
      if b0 = 0 then if b1 ≠ 0 then .utf16be else .utf32be
      else if b1 = 0 then if b2 ≠ 0 ∨ b3 ≠ 0 then .utf16le else .utf32le
      else .utf8
    | [b0, b1] => if b0 = 0 then .utf16be else if b1 = 0 then .utf16le else .utf8
    | _ => .utf8

def encodeUtf8 (s : String) : List UInt8 := s.toByteArray.data.toList

def decodeUtf8 (b : List UInt8) : Option String := String.fromUTF8? ⟨b.toArray⟩

/-- `b.decode(detect_encoding(b))`, with the codecs of the wide encodings given. -/
def decodeText (codecs : Encoding → List UInt8 → Option String) (b : List UInt8) : Option String :=
  match detectEncoding b with
  | .utf8 => decodeUtf8 b
  | .utf8Sig => decodeUtf8 (b.drop 3)
  | encoding => codecs encoding b

def loads (codecs : Encoding → List UInt8 → Option String) (b : List UInt8) :
    Except CursorError Json :=
  match decodeText codecs b with
  | none => .error .unicodeDecode
  | some text =>
    match readJson text.toList with
    | none => .error .jsonDecode
    | some j => .ok j

/-- `base64.b64decode`, which wants a text in ASCII. -/
def b64decode (cs : List Char) : Except CursorError (List UInt8) :=
  if cs.all Percent.isAscii then (Base64.decode cs).mapError .binascii else .error .notAscii

/-- The bytes that `parse_cursor` gives to `json.loads`. -/
def cursorBytes (cursor : String) : Except CursorError (List UInt8) :=
  let decoded := Percent.unquote cursor.toList
  b64decode (decoded ++ Base64.padding decoded.length)

def parseCursor (codecs : Encoding → List UInt8 → Option String) (cursor : String) :
    Except CursorError Json := do
  let bytes ← cursorBytes cursor
  loads codecs bytes

/-- `json.dumps(payload, separators=(",", ": "))`. -/
def dumps (payload : Json) : String := String.ofList (textOf ⟨[], [' ']⟩ payload)

def cursorPayload (idColumn : String) (afterId : Int) : List (String × Json) :=
  [("id_column", .str idColumn), ("id_value", .int afterId), ("id_sort_order", .str "asc"),
    ("sort_by_column", .str idColumn), ("sort_by_value", .int afterId), ("sort_order", .str "asc")]

def makeCursor (idColumn : String) (afterId : Int) : String :=
  String.ofList (Base64.encodePadded .standard
    (encodeUtf8 (dumps (.obj (cursorPayload idColumn afterId)))))

def makeAppCursor (afterId : Int) : String := makeCursor "ApplicationView.id" afterId

def makeAgentCursor (afterId : Int) : String := makeCursor "AgentView.id" afterId

/-- The cursors of a text: in one of the alphabets, with or without padding, and with any of its
characters percent-encoded. -/
def Spelled (a : Base64.Alphabet) (text : List UInt8) (cursor : String) : Prop :=
  Percent.Spells cursor.toList (Base64.encode a text) ∨
    Percent.Spells cursor.toList (Base64.encodePadded a text)

section Cursors

variable {codecs : Encoding → List UInt8 → Option String} {a : Base64.Alphabet}
  {text : List UInt8} {cursor : String}

theorem isAscii_digit {v : Nat} (hv : v < 64) : Percent.isAscii (a.digit v) = true := by
  have hall : ∀ v < 64, Percent.isAscii (a.digit v) = true := by
    cases a with
    | standard => decide +kernel
    | urlSafe => decide +kernel
  exact hall v hv

theorem isAscii_encode : ∀ c ∈ Base64.encode a text, Percent.isAscii c = true := by
  intro c hc
  obtain ⟨v, hv, rfl⟩ := List.mem_map.mp hc
  exact isAscii_digit (Base64.lt_of_mem_sextets hv)

theorem isAscii_encodePadded : ∀ c ∈ Base64.encodePadded a text, Percent.isAscii c = true := by
  intro c hc
  rcases List.mem_append.mp hc with hc | hc
  · exact isAscii_encode c hc
  · rw [List.eq_of_mem_replicate hc]
    rfl

theorem padding_encodePadded : Base64.padding (Base64.encodePadded a text).length = [] := by
  have hzero : (4 - (Base64.encodePadded a text).length % 4) % 4 = 0 := by
    rw [Base64.encodePadded, List.length_append, Base64.padding, List.length_replicate]
    omega
  rw [Base64.padding, hzero]
  rfl

theorem percent_not_mem : '%' ∉ Base64.encodePadded a text := by
  intro hmem
  rcases List.mem_append.mp hmem with hmem | hmem
  · obtain ⟨v, hv, hdigit⟩ := List.mem_map.mp hmem
    have hall : ∀ v < 64, a.digit v ≠ '%' := by
      cases a with
      | standard => decide +kernel
      | urlSafe => decide +kernel
    exact hall v (Base64.lt_of_mem_sextets hv) hdigit
  · exact absurd (List.eq_of_mem_replicate hmem) (by decide)

theorem cursorBytes_spelled (h : Spelled a text cursor) :
    cursorBytes cursor = (Base64.decode (Base64.encodePadded a text)).mapError .binascii := by
  have hpadded : Percent.unquote cursor.toList ++
      Base64.padding (Percent.unquote cursor.toList).length = Base64.encodePadded a text := by
    rcases h with h | h
    · rw [h.unquote_eq isAscii_encode]
      rfl
    · rw [h.unquote_eq isAscii_encodePadded, padding_encodePadded, List.append_nil]
  rw [cursorBytes, hpadded, b64decode, if_pos (List.all_eq_true.mpr isAscii_encodePadded)]

theorem mapError_eq_ok_iff {ε ε' α : Type} {f : ε → ε'} {x : Except ε α} {v : α} :
    x.mapError f = .ok v ↔ x = .ok v := by
  cases x with
  | error e => exact iff_of_false (fun h => nomatch h) fun h => nomatch h
  | ok w => rw [Except.mapError, Except.ok.injEq, Except.ok.injEq]

theorem cursorBytes_standard (h : Spelled .standard text cursor) :
    cursorBytes cursor = .ok text := by
  rw [cursorBytes_spelled h, Base64.decode_standard]
  rfl

theorem cursorBytes_urlSafe_iff (h : Spelled .urlSafe text cursor) :
    cursorBytes cursor = .ok text ↔ ∀ v ∈ Base64.sextets text, v < 62 := by
  rw [cursorBytes_spelled h, mapError_eq_ok_iff, Base64.decode_urlSafe_iff]

theorem parseCursor_of_bytes (h : cursorBytes cursor = .ok text) :
    parseCursor codecs cursor = loads codecs text := by
  rw [parseCursor, h]
  rfl

theorem decodeUtf8_encodeUtf8 {s : String} : decodeUtf8 (encodeUtf8 s) = some s := by
  have hbytes : (⟨(encodeUtf8 s).toArray⟩ : ByteArray) = s.toByteArray := rfl
  rw [decodeUtf8, hbytes, String.fromUTF8?, dif_pos s.isValidUTF8]
  rfl

theorem encodeUtf8_cons {c : Char} {cs : List Char} (hc : c.toNat < 128) :
    encodeUtf8 (String.ofList (c :: cs)) =
      UInt8.ofNat c.toNat :: encodeUtf8 (String.ofList cs) := by
  have hsize : c.utf8Size = 1 := by
    rw [Char.utf8Size_eq_one_iff]
    exact Nat.le_of_lt_succ hc
  have hchar : String.utf8EncodeChar c = [UInt8.ofNat c.toNat] := by
    rw [String.utf8EncodeChar_eq_singleton hsize]
    rfl
  rw [encodeUtf8, encodeUtf8, String.toByteArray_ofList, String.toByteArray_ofList,
    List.utf8Encode_cons, List.utf8Encode_singleton, hchar]
  simp

theorem detectEncoding_object {rest : List UInt8} : detectEncoding (123 :: 34 :: rest) = .utf8 := by
  have hbom : ∀ (b b' : UInt8) (bs : List UInt8), b ≠ 123 → ¬b :: b' :: bs <+: 123 :: 34 :: rest :=
    fun b b' bs hne hprefix => hne (List.cons_prefix_cons.mp hprefix).1
  unfold detectEncoding
  rw [if_neg (not_or.mpr ⟨hbom _ _ _ (by decide), hbom _ _ _ (by decide)⟩),
    if_neg (not_or.mpr ⟨hbom _ _ _ (by decide), hbom _ _ _ (by decide)⟩),
    if_neg (hbom _ _ _ (by decide))]
  match rest with
  | [] => rfl
  | [b2] => rfl
  | b2 :: b3 :: rest => rfl

/-- What was dumped is loaded. -/
theorem loads_dumps {m : String × Json} {ms : List (String × Json)}
    (h : (Json.obj (m :: ms)).Loadable) :
    loads codecs (encodeUtf8 (dumps (.obj (m :: ms)))) = .ok (.obj (m :: ms)) := by
  have hlayout : (⟨[], [' ']⟩ : Layout).Blank :=
    ⟨List.forall_mem_nil _, List.forall_mem_singleton.mpr rfl⟩
  have htext : decodeText codecs (encodeUtf8 (dumps (.obj (m :: ms)))) =
      some (dumps (.obj (m :: ms))) := by
    have hutf8 : detectEncoding (encodeUtf8 (dumps (.obj (m :: ms)))) = .utf8 := by
      obtain ⟨k, v⟩ := m
      rw [dumps, textOf, encStr, List.cons_append, encodeUtf8_cons (by decide),
        encodeUtf8_cons (by decide)]
      exact detectEncoding_object
    rw [decodeText, hutf8]
    exact decodeUtf8_encodeUtf8
  have hread : readJson (dumps (.obj (m :: ms))).toList = some (.obj (m :: ms)) := by
    rw [dumps, String.toList_ofList]
    exact readJson_textOf hlayout h
  rw [loads, htext]
  dsimp only
  rw [hread]

theorem loadable_cursorPayload {idColumn : String} {afterId : Int} :
    (Json.obj (cursorPayload idColumn afterId)).Loadable := by
  have hnames : (cursorPayload idColumn afterId).map Prod.fst =
      ["id_column", "id_value", "id_sort_order", "sort_by_column", "sort_by_value",
        "sort_order"] := rfl
  refine .obj (by rw [hnames]; decide) ?_
  simp only [cursorPayload, List.forall_mem_cons, List.not_mem_nil, false_implies, implies_true,
    and_true]
  exact ⟨.str _, .int _, .str _, .str _, .int _, .str _⟩

theorem parseCursor_makeCursor {idColumn : String} {afterId : Int} :
    parseCursor codecs (makeCursor idColumn afterId) =
      .ok (.obj (cursorPayload idColumn afterId)) := by
  have hspelled : Spelled .standard (encodeUtf8 (dumps (.obj (cursorPayload idColumn afterId))))
      (makeCursor idColumn afterId) := by
    refine Or.inr ?_
    rw [makeCursor, String.toList_ofList]
    exact Percent.spells_self percent_not_mem
  rw [parseCursor_of_bytes (cursorBytes_standard hspelled)]
  exact loads_dumps loadable_cursorPayload

end Cursors

/-- The cursors of a text are all decoded to it if and only if the two alphabets write it alike.
The cursors in the standard alphabet always are, and one character of the other alphabet alone is
an error.  The cursors that are made are read back. -/
theorem parseCursor_roundTrip_iff (codecs : Encoding → List UInt8 → Option String)
    (text : List UInt8) (payload : List (String × Json))
    (hload : loads codecs text = .ok (.obj payload)) :
    ((∀ a cursor, Spelled a text cursor → cursorBytes cursor = .ok text) ↔
      ∀ v ∈ Base64.sextets text, v < 62) ∧
    ((∀ v ∈ Base64.sextets text, v < 62) →
      ∀ a cursor, Spelled a text cursor → parseCursor codecs cursor = .ok (.obj payload)) ∧
    (∀ cursor, Spelled .standard text cursor →
      parseCursor codecs cursor = .ok (.obj payload)) ∧
    (((Base64.sextets text).countP fun v => ¬v < 62) % 4 = 1 →
      ∀ cursor, Spelled .urlSafe text cursor → ∃ e, parseCursor codecs cursor = .error e) ∧
    ∀ afterId : Int, ∀ make ∈ [makeAgentCursor, makeAppCursor],
      ∃ ms, parseCursor codecs (make afterId) = .ok (.obj ms) ∧
        ms.lookup "id_value" = some (.int afterId) ∧
        ms.lookup "sort_by_value" = some (.int afterId) := by
  have hiff : (∀ a cursor, Spelled a text cursor → cursorBytes cursor = .ok text) ↔
      ∀ v ∈ Base64.sextets text, v < 62 := by
    constructor
    · intro hall
      have hspelled :
        Spelled .urlSafe text (String.ofList (Base64.encodePadded .urlSafe text)) := by
        refine Or.inr ?_
        rw [String.toList_ofList]
        exact Percent.spells_self percent_not_mem
      exact (cursorBytes_urlSafe_iff hspelled).mp (hall .urlSafe _ hspelled)
    · intro hcond a cursor hspelled
      cases a with
      | standard => exact cursorBytes_standard hspelled
      | urlSafe => exact (cursorBytes_urlSafe_iff hspelled).mpr hcond
  refine ⟨hiff, ?_, ?_, ?_, ?_⟩
  · intro hcond a cursor hspelled
    rw [parseCursor_of_bytes (hiff.mpr hcond a cursor hspelled), hload]
  · intro cursor hspelled
    rw [parseCursor_of_bytes (cursorBytes_standard hspelled), hload]
  · intro hcount cursor hspelled
    obtain ⟨e, herror⟩ := Base64.decode_urlSafe_error hcount
    exact ⟨.binascii e, by rw [parseCursor, cursorBytes_spelled hspelled, herror]; rfl⟩
  · intro afterId make hmake
    have hvalue : ∀ idColumn,
        (cursorPayload idColumn afterId).lookup "id_value" = some (.int afterId) ∧
        (cursorPayload idColumn afterId).lookup "sort_by_value" = some (.int afterId) :=
      fun idColumn => ⟨rfl, rfl⟩
    rw [List.mem_pair] at hmake
    rcases hmake with rfl | rfl
    · exact ⟨_, parseCursor_makeCursor, hvalue _⟩
    · exact ⟨_, parseCursor_makeCursor, hvalue _⟩

def noCodecs (_ : Encoding) (_ : List UInt8) : Option String := none

theorem loads_tilde :
    loads noCodecs (encodeUtf8 "\x7b\"~\": 1\x7d") = .ok (.obj [("~", .int 1)]) := by
  have hloadable : (Json.obj [("~", .int 1)]).Loadable := by
    refine .obj (List.nodup_singleton _) fun m hm => ?_
    rw [List.mem_singleton.mp hm]
    exact .int 1
  have htext : dumps (.obj [("~", .int 1)]) = "\x7b\"~\": 1\x7d" := by decide +kernel
  rw [← htext]
  exact loads_dumps hloadable

theorem parseCursor_roundTrip_iff_tilde :
    (∀ a cursor, Spelled a (encodeUtf8 "\x7b\"~\": 1\x7d") cursor →
      cursorBytes cursor = .ok (encodeUtf8 "\x7b\"~\": 1\x7d")) ↔
    ∀ v ∈ Base64.sextets (encodeUtf8 "\x7b\"~\": 1\x7d"), v < 62 :=
  (parseCursor_roundTrip_iff noCodecs (encodeUtf8 "\x7b\"~\": 1\x7d") [("~", .int 1)] loads_tilde).1

/-- The cursor of an object in the URL-safe alphabet, which is refused. -/
theorem urlSafe_cursor_refused :
    loads noCodecs (encodeUtf8 "\x7b\"~\": 1\x7d") = .ok (.obj [("~", .int 1)]) ∧
      Spelled .urlSafe (encodeUtf8 "\x7b\"~\": 1\x7d") "eyJ-IjogMX0=" ∧
      parseCursor noCodecs "eyJ-IjogMX0=" = .error (.binascii .incorrectPadding) := by
  have htext : Base64.encodePadded .urlSafe (encodeUtf8 "\x7b\"~\": 1\x7d") =
    "eyJ-IjogMX0=".toList := by
    decide +kernel
  have hbytes : cursorBytes "eyJ-IjogMX0=" = .error (.binascii .incorrectPadding) := by
    decide +kernel
  refine ⟨loads_tilde, Or.inr ?_, ?_⟩
  · rw [htext]
    exact Percent.spells_self (by decide)
  · rw [parseCursor, hbytes]
    rfl

end Sentora.Sync
