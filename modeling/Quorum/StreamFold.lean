import Quorum.StreamFrames

/-! The fold of a stream's frames into the payload of the plain completion (`providers`). -/

namespace Quorum

/-- What reading a provider's body takes from outside: `json.loads`, the hostname `urlparse` reads
(nothing where it raises), Unicode's control and format characters, and the excerpt's limit. -/
structure StreamTables extends TextTables where
  loads : Text → Except String Json
  hostname : Text → Option (Option Text)
  isControlOrFormat : Char → Bool
  sourceFetchMaxTextChars : ℕ

inductive StreamTerminator
  | done
  | finishReason
  | error
  | none
  | notAStream
deriving DecidableEq

inductive AnnotationSite
  | delta
  | message
  | choice
  | frame
deriving DecidableEq

def annotationKeys : List String := ["annotations", "citations"]

def uncleanFinishReasons : List Text := ["length", "error"].map String.toList

/-- Does this mapping hold an annotations key with something in it? -/
def hasAnnotationContent (container : Option Json) : Bool :=
  match container with
  | some (.obj fields) => annotationKeys.any fun key => ((Json.obj fields).get? key).any Json.truthy
  | _ => false

/-- The fold's variables. -/
structure StreamFold where
  textParts : List Text
  annotations : List Json
  citations : List Json
  annotationSites : List AnnotationSite
  finishReason : Option Json
  latched : Bool
  usage : Option Json
  error : Option Json
  frameCount : ℕ
  unrecognised : ℕ
  terminator : StreamTerminator
  bodyError : Option String

/-- A streamed response in the shape of the plain one. -/
structure StreamedCompletion where
  payload : Json
  terminator : StreamTerminator
  frameCount : ℕ
  unrecognisedLines : ℕ
  annotationSites : List AnnotationSite
  bodyError : Option String

namespace StreamFold

def initial : StreamFold :=
  { textParts := [], annotations := [], citations := [], annotationSites := []
    finishReason := none, latched := false, usage := none, error := none
    frameCount := 0, unrecognised := 0, terminator := .none, bodyError := none }

/-- A site is noted when it holds something. -/
def noteSite (fold : StreamFold) (site : AnnotationSite) (container : Option Json) : StreamFold :=
  if hasAnnotationContent container then
    { fold with annotationSites := fold.annotationSites.insert site }
  else fold

/-- `sink.extend(extra)`, when the value is a list. -/
def extended (sink : List Json) (extra : Option Json) : List Json :=
  sink ++ (extra.bind Json.arr?).getD []

/-- The delta of the choice, when it is a mapping: its text and its annotations. -/
def takeDelta (fold : StreamFold) (delta : Option Json) : StreamFold :=
  match delta with
  | none => fold
  | some delta =>
      let fold := fold.noteSite .delta (some delta)
      { fold with
        textParts := fold.textParts ++ ((delta.get? "content").bind Json.str?).toList
        annotations := extended fold.annotations (delta.get? "annotations")
        citations := extended fold.citations (delta.get? "citations") }

/-- The reason of the choice, when it has one: an unclean one latches, else the last one counts. -/
def takeReason (fold : StreamFold) (reason : Option Json) : StreamFold :=
  match reason with
  | none => fold
  | some reason =>
      let unclean := (reason.str?).any fun text => text ∈ uncleanFinishReasons
      { fold with
        finishReason := if unclean || !fold.latched then some reason else fold.finishReason
        latched := fold.latched || unclean
        terminator :=
          if fold.terminator = .none ∨ fold.terminator = .error then .finishReason
          else fold.terminator }

/-- The entry of a frame's choices, when it is a mapping whose index is zero. -/
def counted (choice : Json) : Option Json :=
  match choice with
  | .obj _ => if ((choice.get? "index").getD (.int 0)).isZero then some choice else none
  | _ => none

/-- A choice that counts: its delta and its reason. -/
def takeCounted (fold : StreamFold) (choice : Json) : StreamFold :=
  let fold := fold.noteSite .choice (some choice)
  let fold := fold.noteSite .message (choice.get? "message")
  let fold := fold.takeDelta ((choice.get? "delta").bind Json.mapping?)
  fold.takeReason (choice.present? "finish_reason")

def takeChoice (fold : StreamFold) (choice : Json) : StreamFold :=
  match counted choice with
  | some choice => fold.takeCounted choice
  | none => fold

/-- One frame that `json.loads` returned; one that is no mapping says nothing. -/
def takeFrame (fold : StreamFold) (frame : Json) : StreamFold :=
  let fold : StreamFold := { fold with frameCount := fold.frameCount + 1 }
  match frame with
  | .obj _ =>
      let fold : StreamFold :=
        match (frame.get? "error").bind Json.mapping? with
        | some error =>
            { fold with
              error := some error
              terminator := if fold.terminator = .none then .error else fold.terminator }
        | none => fold
      let fold : StreamFold :=
        match (frame.get? "usage").bind Json.mapping? with
        | some usage => { fold with usage := some usage }
        | none => fold
      let fold := fold.noteSite .frame (some frame)
      (((frame.get? "choices").bind Json.arr?).getD []).foldl takeChoice fold
  | _ => fold

/-- The payload that an equivalent plain call returns. -/
def payload (fold : StreamFold) : Json :=
  let collected := if fold.annotations = [] then fold.citations else fold.annotations
  let message : List (String × Json) :=
    [("content", .str fold.textParts.flatten)]
      ++ if collected = [] then [] else [("annotations", .arr collected)]
  let reason :=
    match fold.finishReason, fold.error with
    | some reason, _ => [("finish_reason", reason)]
    | none, some _ => [("finish_reason", Json.str "error".toList)]
    | none, none => []
  .obj ([("choices", .arr [.obj ([("message", .obj message)] ++ reason)])]
    ++ (fold.usage.map fun usage => ("usage", usage)).toList
    ++ (fold.error.map fun error => ("error", error)).toList)

def completed (fold : StreamFold) : StreamedCompletion :=
  { payload := fold.payload, terminator := fold.terminator, frameCount := fold.frameCount
    unrecognisedLines := fold.unrecognised, annotationSites := fold.annotationSites
    bodyError := fold.bodyError }

end StreamFold

namespace StreamTables

variable (t : StreamTables)

/-- The fold over the frames in arrival order, and whether it read the stream to its end: it drains
what follows the sentinel and leaves what follows a frame that does not parse. -/
def foldFrames (fold : StreamFold) : List SseFrame → StreamFold × Bool
  | [] => (fold, true)
  | .unrecognised :: frames => foldFrames { fold with unrecognised := fold.unrecognised + 1 } frames
  | .data text :: frames =>
      if text = sseDoneSentinel then ({ fold with terminator := .done }, true)
      else
        match t.loads text with
        | .error message => ({ fold with bodyError := some message }, false)
        | .ok frame => foldFrames (fold.takeFrame frame) frames

/-- The fold's result; a line that is not UTF-8 raises through it. -/
def reassembleStreamedCompletion (reading : SseReading) : Except String StreamedCompletion :=
  let (fold, drained) := t.foldFrames StreamFold.initial reading.frames
  if drained && reading.undecodable then .error "UnicodeDecodeError" else .ok fold.completed

/-- What a body that arrives in the given chunks is read as. -/
def readStream (chunks : List Bytes) : Except String StreamedCompletion :=
  t.reassembleStreamedCompletion (iterSseData chunks)

/-- Reading a stream does not depend on how the wire split its bytes. -/
theorem readStream_chunking (t : StreamTables) (chunks : List Bytes) :
    t.readStream chunks = t.readStream [chunks.flatten] := by
  rw [readStream, readStream, iterSseData_flatten chunks]

end StreamTables

end Quorum
