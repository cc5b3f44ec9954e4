import DurableWorkflows.Base.Base64
import DurableWorkflows.Base.JsonText
import DurableWorkflows.Error

/-!
# Admin cursors

A cursor is the URL-safe base64 of a JSON payload with a version, the collection it belongs to
and a position. The writer bounds the fields, the reader bounds the text, and in between the
JSON escapes make the text longer.

## Main definitions

- `CursorCodec`: the JSON and base64 libraries
- `encodeCursor`, `decodeCursor`
- `RoundTrips`: what a client relies on

## Main results

- `roundTrips_iff`: the positions whose cursor is read back
-/

namespace DurableWorkflows

/-- The values of an `i64`. -/
def I64.InRange (n : ℤ) : Prop := DbMillis.min ≤ n ∧ n ≤ DbMillis.max

instance (n : ℤ) : Decidable (I64.InRange n) := inferInstanceAs (Decidable (_ ∧ _))

/-- `CURSOR_VERSION`. -/
def cursorVersion : UInt8 := 1

/-- `MAX_CURSOR_BYTES`. -/
def maxCursorBytes : ℕ := 512

/-- `CursorPosition`. -/
structure CursorPosition where
  timestamp : DbMillis
  tieBreaker : String
  deriving DecidableEq, Repr

/-- `CursorPayload`. -/
structure CursorPayload where
  version : UInt8
  scope : String
  timestamp : DbMillis
  tieBreaker : String
  deriving DecidableEq, Repr

/-- The libraries a cursor is written with: `serde_json::to_vec` and `from_slice` of a payload
(an `i64` timestamp), and the URL-safe base64 engine without padding. -/
structure CursorCodec where
  toVec : CursorPayload → List UInt8
  fromSlice : List UInt8 → Option CursorPayload
  encode : List UInt8 → String
  decode : String → Option (List UInt8)
  fromSlice_toVec : ∀ payload, I64.InRange payload.timestamp →
    fromSlice (toVec payload) = some payload
  decode_encode : ∀ bytes, decode (encode bytes) = some bytes
  /-- The compact form: the names of the fields with their punctuation are 49 bytes. -/
  length_toVec : ∀ payload, (toVec payload).length =
    49 + (toString payload.version).utf8ByteSize + (JsonText.escapedBytes payload.scope + 2) +
      (toString payload.timestamp).utf8ByteSize + (JsonText.escapedBytes payload.tieBreaker + 2)
  /-- Four characters for three bytes, and no padding. -/
  utf8ByteSize_encode : ∀ bytes, (encode bytes).utf8ByteSize = (4 * bytes.length + 2) / 3

/-- `validate_scope`. -/
def validateScope (scope : String) : Except DurableError Unit :=
  rejectIf (scope.utf8ByteSize = 0 ∨ 64 < scope.utf8ByteSize ∨ ¬ scope.toList.all (·.toNat < 128))
    (.invalidCursor "cursor scope is invalid")

/-- `validate_tie_breaker`. -/
def validateTieBreaker (tieBreaker : String) : Except DurableError Unit :=
  rejectIf (tieBreaker.utf8ByteSize = 0 ∨ 191 < tieBreaker.utf8ByteSize)
    (.invalidCursor "cursor tie breaker is invalid")

variable (codec : CursorCodec)

/-- The payload of a position. -/
def cursorPayload (scope : String) (position : CursorPosition) : CursorPayload where
  version := cursorVersion
  scope := scope
  timestamp := position.timestamp
  tieBreaker := position.tieBreaker

/-- `encode_cursor`. -/
def encodeCursor (scope : String) (position : CursorPosition) : Except DurableError String := do
  validateScope scope
  validateTieBreaker position.tieBreaker
  return codec.encode (codec.toVec (cursorPayload scope position))

/-- The checks of a payload that was read. -/
def checkPayload (scope : String) (payload : CursorPayload) :
    Except DurableError CursorPosition := do
  rejectIf (payload.version ≠ cursorVersion) (.invalidCursor "cursor version is not supported")
  rejectIf (payload.scope ≠ scope) (.invalidCursor "cursor belongs to a different collection")
  validateTieBreaker payload.tieBreaker
  return ⟨payload.timestamp, payload.tieBreaker⟩

/-- `decode_cursor`. -/
def decodeCursor (scope cursor : String) : Except DurableError CursorPosition := do
  validateScope scope
  rejectIf (cursor.utf8ByteSize = 0 ∨ maxCursorBytes < cursor.utf8ByteSize)
    (.invalidCursor "cursor length is outside the allowed range")
  match codec.decode cursor with
  | none => .error (.invalidCursor "cursor is not valid URL-safe base64")
  | some bytes =>
    match codec.fromSlice bytes with
    | none => .error (.invalidCursor "cursor payload is malformed")
    | some payload => checkPayload scope payload

/-- A scope and a tie breaker that the writer accepts. -/
def CursorPosition.Accepted (scope : String) (position : CursorPosition) : Prop :=
  validateScope scope = .ok () ∧ validateTieBreaker position.tieBreaker = .ok ()

/-- What a client relies on: its cursor leads back to the position, and to no position of
another collection. -/
def RoundTrips (scope : String) (position : CursorPosition) : Prop :=
  ∃ cursor, encodeCursor codec scope position = .ok cursor ∧
    decodeCursor codec scope cursor = .ok position ∧
    ∀ other, validateScope other = .ok () → other ≠ scope →
      ∃ message, decodeCursor codec other cursor = .error (.invalidCursor message)

/-- The bytes of the fields of a position in the payload. -/
def fieldBytes (scope : String) (position : CursorPosition) : ℕ :=
  JsonText.escapedBytes scope + (toString position.timestamp).utf8ByteSize +
    JsonText.escapedBytes position.tieBreaker

/-- The bytes that a cursor of `maxCursorBytes` has for the fields. -/
def maxFieldBytes : ℕ := 330

-- ════════════════════════════════════════════════════════════════════════
-- Reading a cursor back
-- ════════════════════════════════════════════════════════════════════════

variable {codec} {scope other cursor : String} {position : CursorPosition}

/-- A cursor that was written has the form of its payload. -/
theorem encodeCursor_ok (h : position.Accepted scope) : encodeCursor codec scope position =
    .ok (codec.encode (codec.toVec (cursorPayload scope position))) := by
  rw [encodeCursor, h.1, h.2]
  rfl

/-- The text of a cursor is not empty, and it is short enough if its fields are. -/
theorem length_cursor (codec : CursorCodec) (scope : String) (position : CursorPosition) :
    let cursor := codec.encode (codec.toVec (cursorPayload scope position))
    cursor.utf8ByteSize ≠ 0 ∧
      (cursor.utf8ByteSize ≤ maxCursorBytes ↔ fieldBytes scope position ≤ maxFieldBytes) := by
  have hversion : (toString cursorVersion).utf8ByteSize = 1 := by decide
  have hlength := codec.length_toVec (cursorPayload scope position)
  have hsize := codec.utf8ByteSize_encode (codec.toVec (cursorPayload scope position))
  simp only [cursorPayload, hversion] at hlength
  simp only [maxCursorBytes, maxFieldBytes, fieldBytes, cursorPayload] at hsize ⊢
  omega

/-- What the reader makes of a cursor that was written. -/
theorem decodeCursor_eq (hrange : I64.InRange position.timestamp)
    (hother : validateScope other = .ok ()) (haccepted : position.Accepted scope) :
    decodeCursor codec other (codec.encode (codec.toVec (cursorPayload scope position))) =
      if maxFieldBytes < fieldBytes scope position then
        .error (.invalidCursor "cursor length is outside the allowed range")
      else if other = scope then
        .ok position
      else
        .error (.invalidCursor "cursor belongs to a different collection") := by
  obtain ⟨hne, hfits⟩ := length_cursor codec scope position
  have hpayload := codec.fromSlice_toVec (cursorPayload scope position) hrange
  rw [decodeCursor, hother]
  show (rejectIf _ _ >>= _) = _
  by_cases hlong : maxFieldBytes < fieldBytes scope position
  · rw [if_pos hlong, rejectIf, if_pos (.inr (not_le.mp (mt hfits.mp (not_le.mpr hlong))))]
    rfl
  · have hshort := hfits.mpr (not_lt.mp hlong)
    rw [if_neg hlong, rejectIf, if_neg (not_or.mpr ⟨hne, not_lt.mpr hshort⟩)]
    show (match codec.decode _ with | none => _ | some bytes => _) = _
    rw [codec.decode_encode]
    show (match codec.fromSlice _ with | none => _ | some payload => _) = _
    rw [hpayload]
    show checkPayload other (cursorPayload scope position) = _
    rw [checkPayload, rejectIf, if_neg (fun h => h rfl)]
    show (rejectIf (scope ≠ other) _ >>= _) = _
    by_cases hscope : other = scope
    · rw [if_pos hscope, rejectIf, if_neg (fun h => h hscope.symm)]
      show (validateTieBreaker position.tieBreaker >>= _) = _
      rw [haccepted.2]
      rfl
    · rw [if_neg hscope, rejectIf, if_pos (fun h => hscope h.symm)]
      rfl

-- ════════════════════════════════════════════════════════════════════════
-- A codec
-- ════════════════════════════════════════════════════════════════════════

namespace CompactCodec

/-- The names of the fields with their punctuation. -/
def versionField : List Char := "\x7b\"version\":".toList
def scopeField : List Char := ",\"scope\":".toList
def timestampField : List Char := ",\"timestamp\":".toList
def tieBreakerField : List Char := ",\"tie_breaker\":".toList

/-- A payload in compact JSON. -/
def payloadText (payload : CursorPayload) : List Char :=
  versionField ++ ((toString (payload.version.toNat : ℤ)).toList ++ (scopeField ++
    (JsonText.quote payload.scope.toList ++ (timestampField ++
      ((toString payload.timestamp).toList ++ (tieBreakerField ++
        (JsonText.quote payload.tieBreaker.toList ++ ['\x7d'])))))))

/-- A payload of the form of `payloadText`. -/
def readPayload (text : List Char) : Option CursorPayload := do
  let text ← JsonText.expect versionField text
  let (version, text) ← JsonText.readInt text
  let text ← JsonText.expect scopeField text
  let (scope, text) ← JsonText.readString text
  let text ← JsonText.expect timestampField text
  let (timestamp, text) ← JsonText.readInt text
  let text ← JsonText.expect tieBreakerField text
  let (tieBreaker, text) ← JsonText.readString text
  if text = ['\x7d'] ∧ 0 ≤ version ∧ version < 256 ∧ I64.InRange timestamp then
    some ⟨UInt8.ofNat version.toNat, String.ofList scope, timestamp, String.ofList tieBreaker⟩
  else
    none

/-- The bytes of a text. -/
def toBytes (text : List Char) : List UInt8 := (String.ofList text).toByteArray.data.toList

/-- The text of bytes. -/
def ofBytes (bytes : List UInt8) : Option (List Char) :=
  (ByteArray.mk bytes.toArray).utf8Decode?.map Array.toList

theorem ofBytes_toBytes (text : List Char) : ofBytes (toBytes text) = some text := by
  show (ByteArray.mk (String.ofList text).toByteArray.data.toList.toArray).utf8Decode?.map _ = _
  rw [Array.toArray_toList, String.toByteArray_ofList, List.utf8Decode?_utf8Encode]
  rfl

theorem length_toBytes (text : List Char) : (toBytes text).length = String.utf8Len text := by
  rw [← String.utf8ByteSize_ofList, ← String.size_toByteArray]
  rfl

theorem readPayload_payloadText (payload : CursorPayload)
    (hrange : I64.InRange payload.timestamp) : readPayload (payloadText payload) = some payload := by
  have hversion := payload.version.toNat_lt
  have hnames : ∀ rest, (∀ c ∈ (scopeField ++ rest).head?, JsonText.isNumeral c = false) ∧
      (∀ c ∈ (tieBreakerField ++ rest).head?, JsonText.isNumeral c = false) := by
    intro rest
    constructor
    · rintro c ⟨⟩
      decide
    · rintro c ⟨⟩
      decide
  simp only [readPayload, payloadText, JsonText.expect_append, Option.bind_eq_bind,
    Option.bind_some, JsonText.readInt_append _ (hnames _).1, JsonText.readString_quote,
    JsonText.readInt_append _ (hnames _).2]
  rw [if_pos ⟨trivial, by omega, by omega, hrange⟩, String.ofList_toList, String.ofList_toList,
    Int.toNat_natCast, UInt8.ofNat_toNat]

/-- The names of the fields with their punctuation are 49 bytes. -/
theorem utf8Len_payloadText (payload : CursorPayload) : String.utf8Len (payloadText payload) =
    49 + (toString payload.version).utf8ByteSize + (JsonText.escapedBytes payload.scope + 2) +
      (toString payload.timestamp).utf8ByteSize +
      (JsonText.escapedBytes payload.tieBreaker + 2) := by
  have hfields : String.utf8Len versionField = 11 ∧ String.utf8Len scopeField = 9 ∧
      String.utf8Len timestampField = 13 ∧ String.utf8Len tieBreakerField = 15 ∧
      String.utf8Len ['\x7d'] = 1 := by decide
  obtain ⟨hversion, hscope, htimestamp, htieBreaker, hclose⟩ := hfields
  have hsize : ∀ text : String, String.utf8Len text.toList = text.utf8ByteSize := by
    intro text
    rw [← String.utf8ByteSize_ofList, String.ofList_toList]
  have hnumber : toString (payload.version.toNat : ℤ) = toString payload.version := rfl
  simp only [payloadText, String.utf8Len_append, JsonText.utf8Len_quote, hsize, hversion, hscope,
    htimestamp, htieBreaker, hclose, hnumber]
  omega

end CompactCodec

open CompactCodec in
/-- A codec that writes compact JSON and reads nothing else. -/
def compactCodec : CursorCodec where
  toVec payload := toBytes (payloadText payload)
  fromSlice bytes := (ofBytes bytes).bind readPayload
  encode := Base64.encode
  decode := Base64.decode
  fromSlice_toVec payload hrange := by
    rw [ofBytes_toBytes, Option.bind_some]
    exact readPayload_payloadText payload hrange
  decode_encode := Base64.decode_encode
  length_toVec payload := (length_toBytes _).trans (utf8Len_payloadText payload)
  utf8ByteSize_encode := Base64.utf8ByteSize_encode

-- ════════════════════════════════════════════════════════════════════════
-- Round trips
-- ════════════════════════════════════════════════════════════════════════

/-- The fields of a position that is read back fit. -/
theorem RoundTrips.fits (h : RoundTrips codec scope position)
    (hrange : I64.InRange position.timestamp) (haccepted : position.Accepted scope) :
    fieldBytes scope position ≤ maxFieldBytes := by
  obtain ⟨cursor, hcursor, hdecode, -⟩ := h
  rw [encodeCursor_ok haccepted] at hcursor
  cases hcursor
  rw [decodeCursor_eq hrange haccepted.1 haccepted] at hdecode
  by_cases hlong : maxFieldBytes < fieldBytes scope position
  · rw [if_pos hlong] at hdecode
    cases hdecode
  · exact not_lt.mp hlong

/-- **Admin cursors.** The cursor of an accepted position leads back to it, and is refused by
every other collection, exactly if the fields of the position, as JSON writes them, have at most
330 bytes. -/
theorem roundTrips_iff (codec : CursorCodec) (scope : String) (position : CursorPosition)
    (hrange : I64.InRange position.timestamp) (haccepted : position.Accepted scope) :
    RoundTrips codec scope position ↔ fieldBytes scope position ≤ maxFieldBytes := by
  refine ⟨fun h => h.fits hrange haccepted, fun hfits => ?_⟩
  refine ⟨_, encodeCursor_ok haccepted, ?_, fun other hother hne => ?_⟩
  · rw [decodeCursor_eq hrange haccepted.1 haccepted, if_neg (not_lt.mpr hfits), if_pos rfl]
  · rw [decodeCursor_eq hrange hother haccepted, if_neg (not_lt.mpr hfits), if_neg hne]
    exact ⟨_, rfl⟩

namespace Sample

/-- A position of the list of workflows. -/
def workflowPosition : CursorPosition := ⟨1721000000000, "42"⟩

theorem workflows_roundTrips : RoundTrips compactCodec "workflows" workflowPosition :=
  (roundTrips_iff compactCodec "workflows" workflowPosition (by decide)
    ⟨by decide, by decide⟩).mpr (by decide)

/-- A tie breaker of 54 control characters: JSON writes each with six bytes. -/
def controlPosition : CursorPosition := ⟨0, String.ofList (List.replicate 54 '\x01')⟩

/-- A position that the writer accepts and whose cursor the reader refuses. -/
theorem control_refused : ¬ ∀ (codec : CursorCodec) (scope : String) (position : CursorPosition),
    I64.InRange position.timestamp → position.Accepted scope → RoundTrips codec scope position := by
  intro h
  have haccepted : controlPosition.Accepted "schedules" := ⟨by decide, by decide⟩
  have hrange : I64.InRange controlPosition.timestamp := by decide
  have hroundTrips := h compactCodec "schedules" controlPosition hrange haccepted
  exact absurd (hroundTrips.fits hrange haccepted) (by decide)

end Sample

end DurableWorkflows
