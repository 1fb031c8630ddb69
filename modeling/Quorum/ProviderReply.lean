import Quorum.ProviderExtract

/-! What a dispatched call comes back as once its body arrived (`providers._post_messages`): an
answer, or a dispatch whose charge nobody can state. -/

namespace Quorum

def nonSseBodyLimitBytes : ℕ := 65536

/-- A live answer with its billing evidence. -/
structure LiveProviderResult where
  answerText : Text
  sources : List SourceReference
  usage : Option ReportedUsage
  isTruncated : Bool
  searched : Bool
deriving DecidableEq

/-- What one post returns: `None`, one of the two sentinels, or a result. -/
inductive ProviderReply
  | notBilled
  | searchRejected
  | dispatchUnmeasured
  | answered (result : LiveProviderResult)
deriving DecidableEq

/-- The choice the fold treats as choice zero. -/
def indexZeroChoice (choices : List Json) : Option Json :=
  choices.findSome? fun choice =>
    choice.mapping?.filter fun choice => ((choice.get? "index").getD (.int 0)).isZero

/-- The sites of a body that parsed as one completion. -/
def wholeBodyAnnotationSites (whole : Json) : List AnnotationSite :=
  let first := ((whole.get? "choices").bind Json.arr?).bind indexZeroChoice
  (if hasAnnotationContent (some whole) then [.frame] else [])
    ++ (if hasAnnotationContent first then [.choice] else [])
    ++ if hasAnnotationContent (first.bind fun first =>
      first.get? "message") then [.message] else []

namespace StreamTables

variable (t : StreamTables)

/-- The retained head of the body as the one completion it may be. -/
def wholeCompletion (chunks : List Bytes) : Option StreamedCompletion := do
  let text ← decodeUtf8 (chunks.flatten.take nonSseBodyLimitBytes)
  let whole ← (t.loads text).toOption
  let whole ← whole.mapping?
  let _ ← whole.get? "choices"
  return { payload := whole, terminator := .notAStream, frameCount := 0, unrecognisedLines := 0
           annotationSites := wholeBodyAnnotationSites whole, bodyError := none }

/-- The stream as it was read, or the whole completion when not one frame of it parsed. -/
def streamedOf (streamed : StreamedCompletion) (chunks : List Bytes) : StreamedCompletion :=
  if streamed.frameCount = 0 ∧ streamed.bodyError = none then
    (t.wholeCompletion chunks).getD streamed
  else streamed

/-- What a post with the given body returns. A stream that never said it had finished is no
answer. -/
def bodyReply (searched : Bool) (chunks : List Bytes) : ProviderReply :=
  match t.readStream chunks with
  | .error _ => .dispatchUnmeasured
  | .ok streamed =>
      let streamed := t.streamedOf streamed chunks
      if streamed.bodyError = none
          ∧ (streamed.terminator = .none ∨ streamed.unrecognisedLines ≠ 0) then
        .dispatchUnmeasured
      else if streamed.bodyError ≠ none then .dispatchUnmeasured
      else
        let read := t.extracted streamed.payload
        .answered { answerText := read.answerText, sources := read.sources, usage := read.usage
                    isTruncated := read.isTruncated, searched }

end StreamTables

end Quorum
