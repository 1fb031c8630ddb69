import Quorum.BaseInquiry
import Quorum.CostVerdict
import Quorum.FetchText

/-! One bounded GET of a cited page (`source_fetcher._fetch_one`), as questions to the clock, the
resolver, the connection with its watchdog, and the PDF reader. Each of them may answer anything at
any time. -/

namespace Quorum

open Inquiry Transaction

/-! ### What is asked -/

/-- What `_resolve_within` comes to. -/
inductive Resolution
  | addresses (found : List Text)
  | timedOut
  | failed
  | uncaught

/-- A connection and its one request. -/
structure Dial where
  secure : Bool
  host : Text
  port : ℕ
  pinned : Text
  path : Text
  timeout : ℚ

/-- What a connection may raise: a `TimeoutError`, what the fetch takes for a network error, or
anything else. -/
inductive NetworkRaise
  | timeout
  | network
  | uncaught

structure ResponseHead where
  status : ℕ
  getheader : String → Option Text

/-- What `read_pdf_text` says of a PDF. -/
inductive PdfOutcome
  | fetched
  | unusable
  | timeout

inductive FetchQuestion
  | clock
  | nowIso
  | resolve (host : Text) (port : ℕ) (timeout : ℚ)
  | request (dial : Dial)
  | fired
  | response
  | isClosed
  | read (size : ℕ)
  | pdfText (body : List UInt8) (deadlineSeconds : ℚ)

def FetchAnswer : FetchQuestion → Type
  | .clock => ℚ
  | .nowIso => Text
  | .resolve _ _ _ => Resolution
  | .request _ => Except NetworkRaise Unit
  | .fired => Bool
  | .response => Except NetworkRaise ResponseHead
  | .isClosed => Bool
  | .read _ => Except NetworkRaise (List UInt8)
  | .pdfText _ _ => Text × PdfOutcome

abbrev FetchHistory := History FetchAnswer

abbrev FetchScript (ε α : Type) := Script ε FetchHistory α

/-- What nothing in the fetch catches. -/
inductive FetchRaise
  | uncaught

/-! ### Rows -/

/-- What a row says of the response so far. -/
structure FetchProgress where
  finalStatus : Option ℕ := none
  bytesRead : ℕ := 0
  serverDate : Option Text := none
  lastModified : Option Text := none

/-- What a fetch found, before its row is made. -/
structure PageFacts where
  outcome : FetchOutcome
  progress : FetchProgress := {}
  truncated : Bool := false
  text : Text := []

/-- A row with all that `FetchedSource` holds. -/
structure FetchedRow extends FetchedSource where
  progress : FetchProgress
  truncated : Bool
  elapsedSeconds : ℚ
  fetchedAt : Text

/-- `READABLE_CONTENT_TYPES`. -/
def readableContentTypes : List Text := ["text/html".toList, "text/plain".toList]

def pdfContentType : Text := "application/pdf".toList

/-- `PDF_DOWNLOAD_CONTENT_TYPES`. -/
def pdfDownloadContentTypes : List Text :=
  ["application/octet-stream".toList, "binary/octet-stream".toList]

/-- `PDF_MAGIC`: `%PDF-`. -/
def pdfMagic : List UInt8 := [0x25, 0x50, 0x44, 0x46, 0x2d]

def minUsableTextChars : ℕ := 200

def readChunkBytes : ℕ := 8192

/-- What one call of the fetch is given. -/
structure FetchLimits where
  deadline : ℚ
  perRecvSeconds : ℚ
  maxBytes : ℕ
  maxTextChars : ℕ
  maxPdfBytes : ℕ
  raw : Bool := false
  longPages : Bool := false

/-- What a connection raised, with what had been read. -/
structure RaisedMidway where
  kind : NetworkRaise
  progress : FetchProgress

/-- How the reading of a body ends: the fetch is over, or the body was read. -/
inductive BodyRead
  | ended (facts : PageFacts)
  | body (chunks : List UInt8) (truncated unchecked : Bool)

section

variable (t : FetchTables) (outside : Outside FetchAnswer) (limits : FetchLimits)

/-- An answer of the connection, or what it raised. -/
def unlessRaised {α : Type} (progress : FetchProgress) :
    Except NetworkRaise α → FetchScript RaisedMidway α
  | .ok answer => pure answer
  | .error kind => throw ⟨kind, progress⟩

/-- `watchdog.fired or deadline - clock() <= 0`. -/
def deadlinePassed {ε : Type} : FetchScript ε Bool := do
  let fired : Bool ← ask outside .fired
  if fired then return true
  else
    let now : ℚ ← ask outside .clock
    return limits.deadline - now ≤ 0

/-- A PDF download is refused as soon as a byte differs from the magic. -/
def differsFromMagic (body : List UInt8) : Bool :=
  let head := body.take pdfMagic.length
  head ≠ pdfMagic.take head.length

/-- The loop that reads a body. The bytes of a chunk are at most those that were asked for. -/
def readPageBody (progress : FetchProgress) (cap : ℕ) (unchecked : Bool) (body : List UInt8) :
    FetchScript RaisedMidway BodyRead := do
  let progress := { progress with bytesRead := body.length }
  let closed : Bool ← ask outside .isClosed
  if closed then return .body body false unchecked
  else
    let passed ← deadlinePassed outside limits
    if passed then return .ended { outcome := .timeout, progress }
    else
      let size := min readChunkBytes (cap + 1 - body.length)
      let answer ← ask outside (.read size)
      let sent : List UInt8 ← unlessRaised progress answer
      let chunk := sent.take size
      if _hchunk : chunk = [] then return .body body false unchecked
      else
        let body' := body ++ chunk
        if unchecked && differsFromMagic body' then
          return .ended
            { outcome := .refusedContentType,
              progress := { progress with bytesRead := body'.length } }
        else if _hcap : cap < body'.length then
          return .body body' true (unchecked && decide (body'.length < pdfMagic.length))
        else readPageBody progress cap (unchecked && decide (body'.length < pdfMagic.length)) body'
termination_by cap + 1 - body.length
decreasing_by
  have hpos : 0 < chunk.length := List.length_pos_iff.mpr _hchunk
  have hlength : body'.length = body.length + chunk.length := List.length_append
  change cap + 1 - body'.length < cap + 1 - body.length
  omega

/-- What becomes of a body that was read. -/
def finishBody (progress : FetchProgress) (contentType params : Text) (encoding : Option Text)
    (cap : ℕ) (isPdf : Bool) (chunks : List UInt8) (truncated unchecked : Bool) :
    FetchScript RaisedMidway PageFacts := do
  let progress := { progress with bytesRead := if truncated then cap else chunks.length }
  let fired : Bool ← ask outside .fired
  if fired then return { outcome := .timeout, progress }
  else if unchecked then return { outcome := .refusedContentType, progress }
  else if isPdf && truncated then return { outcome := .tooLarge, progress, truncated }
  else
    let body := chunks.take cap
    let encoding := t.lower (t.strip ((encoding.filter (· ≠ [])).getD "identity".toList))
    if encoding ≠ [] ∧ encoding ≠ "identity".toList then return { outcome := .unusable, progress }
    else if isPdf then
      let now : ℚ ← ask outside .clock
      let reply : Text × PdfOutcome ← ask outside (.pdfText body (limits.deadline - now))
      match reply.2 with
      | .fetched => return { outcome := .fetched, progress, text := reply.1 }
      | .unusable => return { outcome := .unusable, progress }
      | .timeout => return { outcome := .timeout, progress }
    else
      let decoded :=
        (t.decode ((t.charsetOf params).getD "utf-8".toList) body).getD (t.decodeUtf8 body)
      if limits.raw then return { outcome := .fetched, progress, truncated, text := decoded }
      else
        let text := if limits.longPages then t.readingText decoded contentType limits.maxTextChars
          else t.extractText decoded contentType limits.maxTextChars
        if minUsableTextChars ≤ text.length then return { outcome := .fetched, progress, truncated, text }
        else return { outcome := .unusable, progress, truncated }

/-- A response whose headers have come. -/
def readResponse (head : ResponseHead) : FetchScript RaisedMidway PageFacts := do
  let progress : FetchProgress :=
    { finalStatus := some head.status, serverDate := head.getheader "Date"
      lastModified := head.getheader "Last-Modified" }
  if 300 ≤ head.status ∧ head.status < 400 then return { outcome := .refusedRedirect, progress }
  else if 400 ≤ head.status then return { outcome := .httpError, progress }
  else
    let header := (head.getheader "Content-Type").getD []
    let contentType := t.lower (t.strip (header.takeWhile (· ≠ ';')))
    let params := (header.dropWhile (· ≠ ';')).drop 1
    let readingPages := limits.longPages && !limits.raw
    let startUnchecked := readingPages && decide (contentType ∈ pdfDownloadContentTypes)
    let isPdf := startUnchecked || (readingPages && decide (contentType = pdfContentType))
    if contentType ∉ readableContentTypes ∧ isPdf = false then
      return { outcome := .refusedContentType, progress }
    else
      let cap := if isPdf then limits.maxPdfBytes else limits.maxBytes
      let declared := ((head.getheader "Content-Length").filter (· ≠ [])).filter fun value =>
        t.isdigit (t.strip value)
      let length ← unlessRaised progress (match declared with
        | none => .ok 0
        | some value => (t.int value).elim (.error .network) .ok)
      if cap < length then return { outcome := .tooLarge, progress }
      else
        let read ← readPageBody outside limits progress cap startUnchecked []
        match read with
        | .ended facts => return facts
        | .body chunks truncated unchecked =>
            finishBody t outside limits progress contentType params
              (head.getheader "Content-Encoding") cap isPdf chunks
              truncated unchecked

/-- The request and what is read of its response. -/
def exchange (dial : Dial) : FetchScript RaisedMidway PageFacts := do
  let sent ← ask outside (.request dial)
  unlessRaised {} sent
  let fired : Bool ← ask outside .fired
  if fired then return { outcome := .timeout }
  else
    let response ← ask outside .response
    let head ← unlessRaised {} response
    let fired : Bool ← ask outside .fired
    if fired then return { outcome := .timeout }
    else readResponse t outside limits head

/-- The handlers of what a connection raises. -/
def caughtExchange (dial : Dial) : FetchScript FetchRaise PageFacts := fun history =>
  match exchange t outside limits dial history with
  | .ok facts history => .ok facts history
  | .error raised history =>
      match raised.kind with
      | .timeout => .ok { outcome := .timeout, progress := raised.progress } history
      | .uncaught => .error .uncaught history
      | .network =>
          (do
            let passed ← deadlinePassed outside limits
            return { outcome := if passed then .timeout else .networkError, progress := raised.progress } :
              FetchScript FetchRaise PageFacts) history

/-- `classify_host`: the one address to dial, where every address of the host is allowed. -/
def classifyHost (found : List Text) : Option Text :=
  if found.all t.addressIsAllowed then found.head? else none

/-- A target that may be fetched. -/
def fetchTarget (target : PageTarget) : FetchScript FetchRaise PageFacts := do
  let now : ℚ ← ask outside .clock
  if limits.deadline - now ≤ 0 then return { outcome := .skippedCap }
  else
    let resolution : Resolution ← ask outside
        (.resolve target.host target.port (limits.deadline - now))
    match resolution with
    | .timedOut => return { outcome := .timeout }
    | .failed => return { outcome := .refusedAddress }
    | .uncaught => throw .uncaught
    | .addresses found =>
        match classifyHost t found with
        | none => return { outcome := .refusedAddress }
        | some pinned =>
            let now : ℚ ← ask outside .clock
            if limits.deadline - now ≤ 0 then return { outcome := .timeout }
            else
              caughtExchange t outside limits
                { secure := target.secure, host := target.host, port := target.port, pinned,
                  path := target.path
                  timeout := min limits.perRecvSeconds (limits.deadline - now) }

/-- `_row`: the seconds since the start in thousandths. -/
def fetchRow (url : Text) (started : ℚ) (facts : PageFacts) :
    FetchScript FetchRaise FetchedRow := do
  let now : ℚ ← ask outside .clock
  let fetchedAt : Text ← ask outside .nowIso
  return { url, outcome := facts.outcome, text := facts.text, progress := facts.progress, truncated := facts.truncated
           elapsedSeconds := Estimation.roundHalfEven (max 0 (now - started) * 1000) / 1000,
             fetchedAt }

/-- What comes of an accepted address, on the word of robots.txt. -/
def fetchPermitted (target : PageTarget) : RobotsVerdict → FetchScript FetchRaise PageFacts
  | .refused => pure { outcome := .refusedRobots }
  | .unchecked => pure { outcome := .robotsUnchecked }
  | .allowed => fetchTarget t outside limits target

/-- `_fetch_one`, with what robots.txt says of an accepted address and what that leaves to know. -/
def fetchOne {κ : Type} (known : κ)
    (permit : PageTarget → FetchScript FetchRaise (RobotsVerdict × κ)) (url : Text) :
    FetchScript FetchRaise (FetchedRow × κ) := do
  let started : ℚ ← ask outside .clock
  match t.acceptUrl url with
  | .error outcome =>
      let row ← fetchRow outside url started { outcome }
      return (row, known)
  | .ok target =>
      let verdict ← permit target
      let facts ← fetchPermitted t outside limits target verdict.1
      let row ← fetchRow outside url started facts
      return (row, verdict.2)

end

end Quorum
