import Lens.Postgres.Decoder

/-!
# PostgreSQL wire grammar

The messages of protocol 3 as the protocol writes them, for the tags whose
payload the decoder reads.  A C string has no zero byte inside (`CString`), and a
list that the wire counts in two bytes has fewer than `0x10000` elements
(`Counted`).  The other tags stand for any payload.

`Frontend.decode_ok` says the decoder accepts every frontend frame.
`Backend.decode_ok_iff` says which backend frames it accepts: all but a
`ParameterStatus` with an empty value.  Its payload is `name 0 0`, and `cstrings`
takes the last zero byte for the end of the list, so it finds one string.
-/

namespace Lens.Postgres

open List
open Search (be16 be32 beNat)

variable {tag : UInt8} {payload : Bytes} {maxBody : Nat}

/-! ## Wire values -/

/-- A byte string without a zero byte. -/
abbrev CString := { s : Bytes // 0 ∉ s }

/-- A C string on the wire. -/
def CString.wire (s : CString) : Bytes := s.1 ++ [0]

/-- A list whose length fits in two bytes. -/
abbrev Counted (α : Type) := { l : List α // l.length < 0x10000 }

/-- A counted list on the wire. -/
def Counted.wire {α : Type} (enc : α → Bytes) (l : Counted α) : Bytes :=
  be16 l.1.length ++ l.1.flatMap enc

theorem Counted.two_le_length_wire {α : Type} (enc : α → Bytes) (l : Counted α) :
    2 ≤ (l.wire enc).length := by
  rw [Counted.wire, length_append, Search.length_be16]
  omega

/-- A value with its length, where a missing value has the length `-1`. -/
def valueWire : Option Bytes → Bytes
  | none => be32 0xFFFFFFFF
  | some bytes => be32 bytes.length ++ bytes

/-- A typed frame. -/
structure Frame where
  tag : UInt8
  payload : Bytes
deriving DecidableEq, Repr

namespace Frame

/-- The length field counts itself and the payload. -/
def bytes (f : Frame) : Bytes := f.tag :: be32 (f.payload.length + 4) ++ f.payload

/-- Bytes on the wire. -/
def size (f : Frame) : Nat := f.payload.length + 5

/-- The length field is within the limit. -/
def Fits (f : Frame) : Prop := f.payload.length + 4 ≤ maxFrameBytes

instance (f : Frame) : Decidable f.Fits :=
  inferInstanceAs (Decidable (f.payload.length + 4 ≤ maxFrameBytes))

@[simp] theorem length_bytes (f : Frame) : f.bytes.length = f.size := by
  simp only [bytes, size, length_append, length_cons, Search.length_be32]
  omega

end Frame

/-! ## Messages -/

/-- The tags whose payload `decodeFrontend` reads. -/
def frontendTags : Bytes := [0x51, 0x50, 0x42, 0x45]

/-- The messages of a client. -/
inductive Frontend where
  | query (sql : CString)
  | parse (name sql : CString) (types : Counted UInt32)
  | bind (portal statement : CString) (formats : Counted UInt16)
      (values : Counted (Option Bytes)) (results : Counted UInt16)
  | execute (portal : CString) (maxRows : UInt32)
  | other (tag : UInt8) (payload : Bytes) (h : tag ∉ frontendTags)

/-- The frame of a client message. -/
def Frontend.frame : Frontend → Frame
  | .query sql => ⟨0x51, sql.wire⟩
  | .parse name sql types => ⟨0x50, name.wire ++ sql.wire ++ types.wire fun t => be32 t.toNat⟩
  | .bind portal statement formats values results =>
    ⟨0x42, portal.wire ++ statement.wire ++ (formats.wire fun f => be16 f.toNat) ++
      values.wire valueWire ++ results.wire fun f => be16 f.toNat⟩
  | .execute portal maxRows => ⟨0x45, portal.wire ++ be32 maxRows.toNat⟩
  | .other tag payload _ => ⟨tag, payload⟩

/-- One column of a `RowDescription`. -/
structure Column where
  name : CString
  tableOid : UInt32
  number : UInt16
  typeOid : UInt32
  typeSize : UInt16
  modifier : UInt32
  format : UInt16

/-- The fixed part of a column. -/
def Column.attributes (c : Column) : Bytes :=
  be32 c.tableOid.toNat ++ be16 c.number.toNat ++ be32 c.typeOid.toNat ++ be16 c.typeSize.toNat ++
    be32 c.modifier.toNat ++ be16 c.format.toNat

/-- A column on the wire. -/
def Column.wire (c : Column) : Bytes := c.name.wire ++ c.attributes

/-- A field of an error or notice: a code other than zero and a text. -/
structure ErrorField where
  code : { c : UInt8 // c ≠ 0 }
  value : CString

/-- A field on the wire. -/
def ErrorField.wire (f : ErrorField) : Bytes := f.code.1 :: f.value.wire

/-- The tags whose payload `decodeBackend` reads. -/
def backendTags : Bytes := [0x52, 0x53, 0x5A, 0x43, 0x45, 0x4E, 0x54, 0x44]

/-- The messages of a server. -/
inductive Backend where
  | authentication (code : UInt32) (data : Bytes)
  | parameterStatus (name value : CString)
  | readyForQuery (status : UInt8)
  | commandComplete (commandTag : CString)
  | errorResponse (fields : List ErrorField)
  | noticeResponse (fields : List ErrorField)
  | rowDescription (columns : Counted Column)
  | dataRow (values : Counted (Option Bytes))
  | other (tag : UInt8) (payload : Bytes) (h : tag ∉ backendTags)

/-- The frame of a server message. -/
def Backend.frame : Backend → Frame
  | .authentication code data => ⟨0x52, be32 code.toNat ++ data⟩
  | .parameterStatus name value => ⟨0x53, name.wire ++ value.wire⟩
  | .readyForQuery status => ⟨0x5A, [status]⟩
  | .commandComplete commandTag => ⟨0x43, commandTag.wire⟩
  | .errorResponse fields => ⟨0x45, fields.flatMap ErrorField.wire ++ [0]⟩
  | .noticeResponse fields => ⟨0x4E, fields.flatMap ErrorField.wire ++ [0]⟩
  | .rowDescription columns => ⟨0x54, columns.wire Column.wire⟩
  | .dataRow values => ⟨0x44, values.wire valueWire⟩
  | .other tag payload _ => ⟨tag, payload⟩

/-- A parameter status without a value. -/
def Backend.EmptyStatus : Backend → Prop
  | .parameterStatus _ value => value.1 = []
  | _ => False

/-! ## Reading strings -/

/-- A string is read back, with the bytes after it. -/
theorem takeCstring_wire (s : CString) (rest : Bytes) :
    takeCstring (s.wire ++ rest) = .ok (s.1, rest) := by
  have hfind : (s.1 ++ 0 :: rest).findIdx? (· == 0) = some s.1.length := by
    rw [findIdx?_append]
    have hnone : s.1.findIdx? (· == 0) = none := by
      rw [findIdx?_eq_none_iff]
      intro x hx
      have hne : x ≠ 0 := fun h => s.2 (h ▸ hx)
      simpa using hne
    simp [hnone, findIdx?_cons]
  simp [takeCstring, CString.wire, hfind]

theorem cstringsLoop_nil (n : Nat) : cstringsLoop n [] = .ok [] := by
  cases n <;> rfl

theorem cstringsLoop_zero (n : Nat) : cstringsLoop n [0] = .ok [] := by
  cases n <;> rfl

/-- One string off a payload that is more than a terminator. -/
theorem cstringsLoop_append (n : Nat) (s : CString) {rest : Bytes}
    (h : s.wire ++ rest ≠ [0]) :
    cstringsLoop (n + 1) (s.wire ++ rest) = (s.1 :: ·) <$> cstringsLoop n rest := by
  have hne : ¬ (s.wire ++ rest).isEmpty = true := by simp [CString.wire]
  rw [cstringsLoop, if_neg hne, if_neg h, takeCstring_wire]
  rfl

@[simp] theorem CString.length_wire (s : CString) : s.wire.length = s.1.length + 1 := by
  simp [CString.wire]

/-- A list of strings and its terminator, with enough turns. -/
theorem cstringsLoop_wire :
    ∀ (l : List CString) (n : Nat), (l.flatMap CString.wire).length + 1 ≤ n →
      cstringsLoop n (l.flatMap CString.wire ++ [0]) = .ok (l.map Subtype.val)
  | _, 0, h => by omega
  | [], n + 1, _ => cstringsLoop_zero (n + 1)
  | s :: l, n + 1, h => by
    rw [flatMap_cons, length_append, CString.length_wire] at h
    have ih := cstringsLoop_wire l n (by omega)
    rw [flatMap_cons, append_assoc, cstringsLoop_append, ih]
    · rfl
    · intro heq
      have hsum := congrArg List.length heq
      rw [length_append, length_append, CString.length_wire, length_singleton] at hsum
      omega

/-- A list of strings and its terminator is read back. -/
theorem cstrings_wire (l : List CString) :
    cstrings (l.flatMap CString.wire ++ [0]) = .ok (l.map Subtype.val) :=
  cstringsLoop_wire l _ (by rw [length_append, length_singleton])

/-- Two strings without a terminator.  A second string that is empty is lost. -/
theorem cstrings_pair (name value : CString) :
    cstrings (name.wire ++ value.wire) =
      .ok (if value.1 = [] then [name.1] else [name.1, value.1]) := by
  have hlen : (name.wire ++ value.wire).length = name.1.length + value.1.length + 2 := by
    rw [length_append, CString.length_wire, CString.length_wire]
    omega
  have hne : name.wire ++ value.wire ≠ [0] := by
    intro heq
    rw [heq, length_singleton] at hlen
    omega
  rw [cstrings, hlen, cstringsLoop_append _ _ hne]
  by_cases hv : value.1 = []
  · have hwire : value.wire = [0] := by rw [CString.wire, hv, nil_append]
    rw [hwire, cstringsLoop_zero, if_pos hv]
    rfl
  · have hwire : value.wire ++ [] ≠ [0] := by
      simpa [CString.wire] using hv
    have hlast := cstringsLoop_append (name.1.length + value.1.length) value hwire
    rw [append_nil] at hlast
    rw [hlast, cstringsLoop_nil, if_neg hv]
    rfl

/-- The fields of an error and their terminator are read back. -/
theorem errorFieldsLoop_wire :
    ∀ (fields : List ErrorField) (n : Nat), (fields.flatMap ErrorField.wire).length + 1 ≤ n →
      errorFieldsLoop n (fields.flatMap ErrorField.wire ++ [0]) =
        .ok (fields.map fun f => (f.code.1, f.value.1))
  | _, 0, h => by omega
  | [], n + 1, _ => by simp [errorFieldsLoop]
  | f :: fields, n + 1, h => by
    have hlen : f.wire.length = f.value.1.length + 2 := by simp [ErrorField.wire, CString.wire]
    rw [flatMap_cons, length_append, hlen] at h
    have ih := errorFieldsLoop_wire fields n (by omega)
    simp [ErrorField.wire, errorFieldsLoop, f.code.2, append_assoc, takeCstring_wire, ih]

theorem errorFields_wire (fields : List ErrorField) :
    errorFields (fields.flatMap ErrorField.wire ++ [0]) =
      .ok (fields.map fun f => (f.code.1, f.value.1)) :=
  errorFieldsLoop_wire fields _ (by rw [length_append, length_singleton])

/-- Every column of a row description is read. -/
theorem rowFields_wire :
    ∀ (columns : List Column),
      rowFields columns.length (columns.flatMap Column.wire) =
        .ok (columns.map fun c => c.name.1)
  | [] => rfl
  | c :: columns => by
    have ih := rowFields_wire columns
    have hlen : c.attributes.length = 18 := by simp [Column.attributes]
    simp [rowFields, Column.wire, append_assoc, takeCstring_wire, ih, hlen]

/-! ## Accepted frames -/

/-- The tag with a given character. -/
theorem tagChar_eq_iff {c : Char} (hc : c.toNat < 256) :
    Char.ofNat tag.toNat = c ↔ tag = UInt8.ofNat c.toNat := by
  have hlt := tag.toNat_lt
  constructor
  · intro h
    rw [← h, Utf8.toNat_ofNat (by omega)]
    exact (UInt8.ofNat_toNat).symm
  · intro h
    rw [h, UInt8.toNat_ofNat_of_lt' hc]
    exact Char.ofNat_toNat c

/-- The decoder accepts a frame when its message part is accepted. -/
theorem decodeFrontend_ok_iff :
    (∃ m, decodeFrontend tag payload maxBody = .ok m) ↔
      ∃ m, frontendMessage tag payload maxBody = .ok m := by
  cases h : frontendMessage tag payload maxBody with
  | error e => simp [decodeFrontend, h, Except.map]
  | ok m => simp [decodeFrontend, h, Except.map]

theorem decodeBackend_ok_iff :
    (∃ m, decodeBackend tag payload maxBody = .ok m) ↔
      ∃ m, backendMessage tag payload maxBody = .ok m := by
  cases h : backendMessage tag payload maxBody with
  | error e => simp [decodeBackend, h, Except.map]
  | ok m => simp [decodeBackend, h, Except.map]

/-- A message of the decoder ends with the size of its frame. -/
theorem decodeTyped_wireBytes {d : Direction} {f : Frame} {m : DecodedMessage}
    (h : decodeTyped d f.tag f.payload maxBody = .ok m) :
    m.headers.getLast? = some ("wire-bytes", toString f.size) := by
  cases d with
  | clientToServer =>
    cases hm : frontendMessage f.tag f.payload maxBody with
    | error e => simp [decodeTyped, decodeFrontend, hm, Except.map] at h
    | ok m' =>
      simp only [decodeTyped, decodeFrontend, hm, Except.map, Except.ok.injEq] at h
      simp [← h, withWireBytes, Frame.size]
  | serverToClient =>
    cases hm : backendMessage f.tag f.payload maxBody with
    | error e => simp [decodeTyped, decodeBackend, hm, Except.map] at h
    | ok m' =>
      simp only [decodeTyped, decodeBackend, hm, Except.map, Except.ok.injEq] at h
      simp [← h, withWireBytes, Frame.size]

/-- A `Bind` frame is accepted. -/
theorem bindMessage_ok (portal statement : CString) (formats : Counted UInt16)
    (values : Counted (Option Bytes)) (rest : Bytes) :
    ∃ m, bindMessage (portal.wire ++ statement.wire ++ (formats.wire fun f => be16 f.toNat) ++
      values.wire valueWire ++ rest) = .ok m := by
  have hcount : beNat (be16 formats.1.length) = formats.1.length :=
    Search.beNat_be16 formats.2
  have hlen : (formats.1.flatMap fun f => be16 f.toNat).length = formats.1.length * 2 := by
    simp
  have htake : (formats.wire (fun f => be16 f.toNat) ++ values.wire valueWire ++ rest).take 2 =
      be16 formats.1.length := rfl
  have hshort : ¬ (formats.wire (fun f => be16 f.toNat) ++ values.wire valueWire ++ rest).length <
      formats.1.length * 2 + 2 + 2 := by
    simp only [Counted.wire, length_append, Search.length_be16, hlen]
    omega
  have hshort' : ¬ (formats.wire (fun f => be16 f.toNat) ++ values.wire valueWire ++ rest).length <
      2 := by omega
  simp only [bindMessage, append_assoc, takeCstring_wire, ok_bind] at *
  rw [if_neg hshort', htake, hcount, if_neg hshort]
  exact ⟨_, rfl⟩

/-- The decoder accepts every frontend frame. -/
theorem Frontend.decode_ok (f : Frontend) (maxBody : Nat) :
    ∃ m, decodeFrontend f.frame.tag f.frame.payload maxBody = .ok m := by
  rw [decodeFrontend_ok_iff]
  cases f with
  | query sql =>
    have h := takeCstring_wire sql []
    rw [append_nil] at h
    simp [Frontend.frame, frontendMessage, firstCstring, h, Except.map]
  | parse name sql types =>
    simp [Frontend.frame, frontendMessage, append_assoc, takeCstring_wire]
  | bind portal statement formats values results =>
    exact bindMessage_ok portal statement formats values _
  | execute portal maxRows =>
    simp [Frontend.frame, frontendMessage, executeMessage, takeCstring_wire]
  | other tag payload h =>
    have hne : ∀ c ∈ ['Q', 'P', 'B', 'E'], Char.ofNat tag.toNat ≠ c := by
      simpa [frontendTags, tagChar_eq_iff] using h
    simp only [Frontend.frame, frontendMessage]
    split
    all_goals first | exact ⟨_, rfl⟩ | (exfalso; simp_all)

/-- A `RowDescription` frame is accepted. -/
theorem rowDescription_ok (columns : Counted Column) :
    ∃ m, rowDescription (columns.wire Column.wire) = .ok m := by
  have hshort := columns.two_le_length_wire Column.wire
  have htake : (columns.wire Column.wire).take 2 = be16 columns.1.length := rfl
  have hdrop : (columns.wire Column.wire).drop 2 = columns.1.flatMap Column.wire := rfl
  rw [rowDescription, if_neg (by omega)]
  simp only [htake, hdrop, Search.beNat_be16 columns.2, rowFields_wire]
  exact ⟨_, rfl⟩

/-- A `ParameterStatus` frame is accepted when its value is not empty. -/
theorem parameterStatus_ok_iff (name value : CString) :
    (∃ m, parameterStatus (name.wire ++ value.wire) = .ok m) ↔ value.1 ≠ [] := by
  rw [parameterStatus, cstrings_pair]
  by_cases hv : value.1 = []
  · rw [if_pos hv]
    simp [hv]
  · rw [if_neg hv]
    simp [hv]

/-- The decoder accepts every backend frame but a status without a value. -/
theorem Backend.decode_ok_iff (f : Backend) (maxBody : Nat) :
    (∃ m, decodeBackend f.frame.tag f.frame.payload maxBody = .ok m) ↔ ¬ f.EmptyStatus := by
  rw [decodeBackend_ok_iff]
  cases f with
  | authentication code data =>
    simp [Backend.frame, backendMessage, Backend.EmptyStatus]
  | parameterStatus name value =>
    exact parameterStatus_ok_iff name value
  | readyForQuery status =>
    simp [Backend.frame, backendMessage, Backend.EmptyStatus]
  | commandComplete commandTag =>
    have h := takeCstring_wire commandTag []
    rw [append_nil] at h
    simp [Backend.frame, backendMessage, Backend.EmptyStatus, firstCstring, h, Except.map]
  | errorResponse fields =>
    simp [Backend.frame, backendMessage, Backend.EmptyStatus, errorOrNotice, errorFields_wire]
  | noticeResponse fields =>
    simp [Backend.frame, backendMessage, Backend.EmptyStatus, errorOrNotice, errorFields_wire]
  | rowDescription columns =>
    simp [Backend.frame, backendMessage, Backend.EmptyStatus, rowDescription_ok]
  | dataRow values =>
    have hshort : ¬ (values.wire valueWire).length ≤ 1 :=
      Nat.not_le.mpr (values.two_le_length_wire valueWire)
    simp [Backend.frame, backendMessage, Backend.EmptyStatus, hshort]
  | other tag payload h =>
    have hne : ∀ c ∈ ['R', 'S', 'Z', 'C', 'E', 'N', 'T', 'D'], Char.ofNat tag.toNat ≠ c := by
      simpa [backendTags, tagChar_eq_iff] using h
    simp only [Backend.frame, backendMessage, Backend.EmptyStatus, not_false_eq_true, iff_true]
    split
    all_goals first | exact ⟨_, rfl⟩ | (exfalso; simp_all)

end Lens.Postgres
