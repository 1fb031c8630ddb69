import Quorum.BaseJson
import Quorum.BaseLines
import Quorum.BaseUtf8
import Quorum.SynthesisLength
import Mathlib.Data.List.DropRight

/-! The frames of a server-sent stream (`providers`): what each line carries, and what the reader
yields of the bytes as the wire delivers them. -/

namespace Quorum

abbrev Bytes := List UInt8

def sseBom : Bytes := [0xef, 0xbb, 0xbf]

def sseDataField : Text := "data:".toList

def sseDoneSentinel : Text := "[DONE]".toList

def sseIgnoredFields : List Text := ["event:", "id:", "retry:"].map String.toList

/-- What the reader yields: the data of an event, or the marker of a line it cannot place. -/
inductive SseFrame
  | data (text : Text)
  | unrecognised
deriving DecidableEq

/-- What one line carries. -/
inductive LineValue
  | data (value : Text)
  | ignored
  | unrecognised
deriving DecidableEq

/-- `rawLine.rstrip(b"\r")`. -/
def rstripReturns (rawLine : Bytes) : Bytes :=
  rawLine.rdropWhile (· = 13)

/-- What a line carries; nothing for one that is not UTF-8. -/
def dataValue (rawLine : Bytes) : Option LineValue :=
  (decodeUtf8 (rstripReturns rawLine)).map fun line =>
    if [':'].isPrefixOf line || sseIgnoredFields.any fun field =>
      field.isPrefixOf line then .ignored
    else if !sseDataField.isPrefixOf line then .unrecognised
    else
      let value := line.drop sseDataField.length
      .data (if [' '].isPrefixOf value then value.drop 1 else value)

/-- What was yielded, the values of the event under way, and whether a line could not be decoded,
which ends the reading. -/
structure SseReading where
  frames : List SseFrame
  pending : List Text
  undecodable : Bool
deriving DecidableEq

namespace SseReading

def initial : SseReading :=
  { frames := [], pending := [], undecodable := false }

/-- The event under way is yielded. -/
def dispatch (reading : SseReading) : SseReading :=
  if reading.pending = [] then reading
  else
    { reading with
      frames := reading.frames ++ [.data (['\n'].intercalate reading.pending)], pending := [] }

/-- The value of a line that is not blank. -/
def takeValue (reading : SseReading) (rawLine : Bytes) : SseReading :=
  match dataValue rawLine with
  | none => { reading with undecodable := true }
  | some .ignored => reading
  | some .unrecognised => { reading with frames := reading.frames ++ [.unrecognised] }
  | some (.data value) => { reading with pending := reading.pending ++ [value] }

/-- A complete line; the generator is dead once it raised. -/
def onLine (reading : SseReading) (rawLine : Bytes) : SseReading :=
  if reading.undecodable then reading
  else if rstripReturns rawLine = [] then reading.dispatch
  else reading.takeValue rawLine

end SseReading

/-- One byte-order mark is stripped. -/
def stripBom (buffer : Bytes) : Bytes :=
  if sseBom.isPrefixOf buffer then buffer.drop sseBom.length else buffer

/-- `buffer.strip()` leaves nothing. -/
def isBlank (buffer : Bytes) : Bool :=
  buffer.all fun byte => byte ∈ [9, 10, 11, 12, 13, 32]

/-- A final line without its break, and then the event under way. -/
def finishSse (reader : LineReader SseReading UInt8) : SseReading :=
  if reader.state.undecodable then reader.state
  else
    let reading :=
      if isBlank reader.buffer then reader.state else reader.state.takeValue reader.buffer
    if reading.undecodable then reading else reading.dispatch

/-- What is yielded of a body that arrives in the given chunks. -/
def iterSseData (chunks : List Bytes) : SseReading :=
  finishSse (chunks.foldl (LineReader.feed 10 SseReading.onLine sseBom.length stripBom)
    (LineReader.fresh SseReading.initial))

theorem stripBom_append {buffer : Bytes} (h : sseBom.length ≤ buffer.length) (more : Bytes) :
    stripBom (buffer ++ more) = stripBom buffer ++ more := by
  have hstarts : sseBom.isPrefixOf (buffer ++ more) = sseBom.isPrefixOf buffer := by
    rw [Bool.eq_iff_iff, List.isPrefixOf_iff_prefix, List.isPrefixOf_iff_prefix]
    refine ⟨fun hlong => ?_, fun hshort => hshort.trans (List.prefix_append buffer more)⟩
    exact List.prefix_of_prefix_length_le hlong (List.prefix_append buffer more) h
  rw [stripBom, stripBom, hstarts]
  split_ifs
  · exact List.drop_append_of_le_length h
  · rfl

/-- What is yielded does not depend on how the bytes were cut. -/
theorem iterSseData_flatten (chunks : List Bytes) :
    iterSseData chunks = iterSseData [chunks.flatten] := by
  have hsettled : LineReader.Settled 10 sseBom.length
      (LineReader.fresh SseReading.initial : LineReader SseReading UInt8) :=
    LineReader.settled_fresh (by decide) SseReading.initial
  rw [iterSseData, iterSseData,
    LineReader.foldl_feed (fun _ more h => stripBom_append h more) hsettled chunks]
  rfl

end Quorum
