import Quorum.DebatePeer
import Quorum.StreamFold

/-! What a completion's payload is read for (`providers`): the answer's text, its citations, the
usage and whether it was cut short. -/

namespace Quorum

structure SourceReference where
  title : Text
  url : Text
  provider : ProviderPath
  isFallback : Bool
  excerpt : Text
deriving DecidableEq

/-- The usage the provider states. -/
structure ReportedUsage extends TokenUsage where
  totalTokens : ℕ
deriving DecidableEq

def maxPlausibleTokens : ℕ := 100000000

def sourceUrlHostDenylist : List Text :=
  ["localhost", "127.0.0.1", "0.0.0.0", "169.254.169.254", "metadata.google.internal",
    "::1"].map String.toList

/-- `left or right`. -/
def orElse (left right : Option Json) : Option Json :=
  if left.any Json.truthy then left else right

/-- `payload["choices"][0]`, when these are a list with a mapping at its head. -/
def firstChoice (payload : Json) : Option Json :=
  match (payload.get? "choices").bind Json.arr? with
  | some (first :: _) => first.mapping?
  | _ => none

/-- The message of the first choice. -/
def firstMessage (payload : Json) : Option Json :=
  (firstChoice payload).bind fun first => (first.get? "message").bind Json.mapping?

def extractMessageContent (payload : Json) : Text :=
  match (firstMessage payload).bind fun message => message.get? "content" with
  | some (.str content) => content
  | some (.arr items) =>
      let parts := items.filterMap fun item => (item.get? "text").bind Json.str?
      ['\n'].intercalate (parts.filter (· ≠ []))
  | _ => []

def finishReasonIndicatesTruncation (payload : Json) : Bool :=
  (((firstChoice payload).bind fun first => first.get? "finish_reason").bind Json.str?).any
    fun reason => reason ∈ uncleanFinishReasons

/-- A plausible count of tokens. -/
def tokenCount (usage : Json) (key : String) : Option ℕ :=
  match usage.get? key with
  | some (.int value) =>
      if 0 ≤ value ∧ value ≤ maxPlausibleTokens then some value.toNat else none
  | _ => none

/-- The usage a mapping states; without the parts there is none. -/
def usageOf (usage : Json) : Option ReportedUsage := do
  let promptTokens ← tokenCount usage "prompt_tokens"
  let completionTokens ← tokenCount usage "completion_tokens"
  return { promptTokens, completionTokens
           totalTokens := (tokenCount usage "total_tokens").getD (promptTokens + completionTokens) }

def extractUsage (payload : Json) : Option ReportedUsage :=
  ((payload.get? "usage").bind Json.mapping?).bind usageOf

/-- An inline link `[anchor](https://...)` that begins here: its anchor, its address, its length. -/
def linkAt (isspace : Char → Bool) (text : Text) : Option (Text × Text × ℕ) :=
  match text with
  | '[' :: rest =>
      let anchor := rest.takeWhile (· ≠ ']')
      match rest.drop anchor.length with
      | ']' :: '(' :: target =>
          let scheme :=
            if "https://".toList.isPrefixOf target then 8
            else if "http://".toList.isPrefixOf target then 7 else 0
          let body := (target.drop scheme).takeWhile fun ch => !isspace ch && ch ≠ ')'
          match (target.drop scheme).drop body.length with
          | ')' :: _ =>
              if anchor = [] ∨ scheme = 0 ∨ body = [] then none
              else
                some (anchor, target.take (scheme + body.length),
                  anchor.length + scheme + body.length + 4)
          | _ => none
      | _ => none
  | _ => none

/-- The inline links from left to right, of which none begins inside another. -/
def inlineLinks (isspace : Char → Bool) : ℕ → Text → List (Text × Text)
  | _, [] => []
  | skip + 1, _ :: rest => inlineLinks isspace skip rest
  | 0, ch :: rest =>
      match linkAt isspace (ch :: rest) with
      | some (anchor, url, length) => (anchor, url) :: inlineLinks isspace (length - 1) rest
      | none => inlineLinks isspace 0 rest

namespace StreamTables

variable (t : StreamTables)

/-- The address without its fragment, or nothing for one that must be dropped. -/
def sanitizeSourceUrl (url : Text) : Option Text :=
  let url := t.strip url
  if url = [] then none
  else if url.any fun ch => t.isspace ch || ch.toNat < 0x20
      || ch ∈ ['\u2028', '\u2029', '\u0085'] then none
  else if !("http://".toList.isPrefixOf url || "https://".toList.isPrefixOf url) then none
  else
    let url := url.takeWhile (· ≠ '#')
    match t.hostname url with
    | none => none
    | some host => if t.lower (host.getD []) ∈ sourceUrlHostDenylist then none else some url

/-- A search passage made safe to keep; anything that is no string is no excerpt. -/
def cleanSearchExcerpt (value : Option Json) : Text :=
  match value with
  | some (.str text) =>
      let raw := text.take (t.sourceFetchMaxTextChars * 8)
      let kept := raw.filter fun ch => t.isspace ch || !t.isControlOrFormat ch
      ([' '].intercalate ((kept.splitOnP t.isspace).filter (· ≠ []))).take t.sourceFetchMaxTextChars
  | _ => []

def citationTitle (index : ℕ) : Text := (" citation " ++ toString index).toList

/-- The source of one annotation: the nested block first, the flat keys after it. -/
def annotationSource (index : ℕ) (entry : Json) : Option SourceReference :=
  match entry with
  | .obj _ =>
      let block := ((entry.get? "url_citation").bind Json.mapping?).getD (.obj [])
      let rawUrl :=
        orElse (block.get? "url") (orElse (entry.get? "url") (entry.get? "source"))
      let title := orElse (block.get? "title") (entry.get? "title")
      ((rawUrl.bind Json.str?).bind t.sanitizeSourceUrl).map fun url =>
        { title :=
            if title.any Json.truthy then
              ((title.bind Json.str?).getD (citationTitle index))
            else citationTitle index
          url, provider := .openrouterSearch, isFallback := false
          excerpt := t.cleanSearchExcerpt
            ((if (block.get? "url").any Json.truthy then block else entry).get? "content") }
  | _ => none

/-- The sources of the inline links, one for each address. -/
def linkSources (seen : List Text) : List (Text × Text) → List SourceReference
  | [] => []
  | (anchor, rawUrl) :: links =>
      match t.sanitizeSourceUrl (t.strip rawUrl) with
      | none => linkSources seen links
      | some url =>
          if url ∈ seen then linkSources seen links
          else
            { title := t.strip anchor, url, provider := .openrouterSearch, isFallback := false
              excerpt := [] } :: linkSources (url :: seen) links

/-- The sources of some annotations; the inline links of the text count where these give none. -/
def citationsOf (annotations : List Json) (content : Text) : List SourceReference :=
  let references := (annotations.zipIdx 1).filterMap fun (entry, index) =>
    t.annotationSource index entry
  if references = [] then t.linkSources [] (inlineLinks t.isspace 0 content) else references

def extractCitations (payload : Json) (content : Text) : List SourceReference :=
  match firstMessage payload with
  | none => []
  | some message =>
      t.citationsOf (((orElse (message.get? "annotations") (message.get? "citations")).bind
        Json.arr?).getD []) content

end StreamTables

/-- What a payload is read for. -/
structure Extracted where
  answerText : Text
  sources : List SourceReference
  usage : Option ReportedUsage
  isTruncated : Bool
deriving DecidableEq

def StreamTables.extracted (t : StreamTables) (payload : Json) : Extracted :=
  let content := extractMessageContent payload
  { answerText := content, sources := t.extractCitations payload content
    usage := extractUsage payload, isTruncated := finishReasonIndicatesTruncation payload }

end Quorum
