import Lens.Core
import Lens.Stream.Drive

/-!
# Decoder contract

`DecodedMessage` and `DecodeBatch` of `lens-protocol`.  A batch is the `Batch` of
the decoding loops, with decoded messages and textual reasons.
-/

namespace Lens

open List

/-- A complete protocol message emitted by a streaming decoder. -/
structure DecodedMessage where
  direction : Direction
  startLine : String
  headers : Headers
  body : Bytes
  truncated : Bool
deriving DecidableEq, Repr

/-- Result of feeding one fragment to a decoder. -/
abbrev DecodeBatch := Stream.Batch DecodedMessage String

/-- A call of a streaming decoder. -/
inductive Call where
  | push (direction : Direction) (bytes : Bytes)
  | finish (direction : Direction)
deriving DecidableEq, Repr

def Call.direction : Call → Direction
  | push direction _ => direction
  | finish direction => direction

/-- The bytes of one header line. -/
def renderHeader (h : String × String) : Bytes :=
  Utf8.asBytes h.1 ++ Utf8.asBytes ": " ++ Utf8.asBytes h.2 ++ Utf8.asBytes "\r\n"

namespace DecodedMessage

/-- A stable human-facing summary. -/
def summary (m : DecodedMessage) : String := m.startLine

/-- Headers and captured body as stored and exported. -/
def render (m : DecodedMessage) : Bytes :=
  m.headers.flatMap renderHeader ++ Utf8.asBytes "\r\n" ++ m.body

/-- The message with one more header at the end. -/
def pushHeader (m : DecodedMessage) (name value : String) : DecodedMessage :=
  { m with headers := m.headers ++ [(name, value)] }

@[simp] theorem pushHeader_headers (m : DecodedMessage) (name value : String) :
    (m.pushHeader name value).headers = m.headers ++ [(name, value)] := rfl

@[simp] theorem pushHeader_direction (m : DecodedMessage) (name value : String) :
    (m.pushHeader name value).direction = m.direction := rfl

end DecodedMessage

/-- The value of the first header with a name, in any letter case. -/
def findHeader (headers : Headers) (name : String) : Option String :=
  (headers.find? fun h => Str.eqIgnoreAsciiCase h.1 name).map Prod.snd

theorem findHeader_append (hs hs' : Headers) (name : String) :
    findHeader (hs ++ hs') name = (findHeader hs name).or (findHeader hs' name) := by
  rw [findHeader, find?_append, Option.map_or, findHeader, findHeader]

/-- A header is not found among other names. -/
theorem findHeader_eq_none {hs : Headers} {name : String}
    (h : (hs.map Prod.fst).all (!Str.eqIgnoreAsciiCase · name) = true) :
    findHeader hs name = none := by
  rw [findHeader, Option.map_eq_none_iff, find?_eq_none]
  intro x hx
  have hname := all_eq_true.mp h x.1 (mem_map_of_mem hx)
  simpa using hname

end Lens
