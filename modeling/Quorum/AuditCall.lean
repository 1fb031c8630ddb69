import Quorum.AuditReport
import Quorum.BaseJson
import Quorum.BaseUtf8

/-! The audit model's call and what the run makes of its outcome (`feedback_audit`): the report with
the model's findings, or the local report. -/

namespace Quorum

open JsonScan

/-- What the opener and the body's read can raise, by the classes that the call catches. -/
inductive TransportError
  | httpError
  | urlError
  | timeoutError
  | other
deriving DecidableEq

/-- How the call ends: the base URL is none that the key may go to, the transport fails, or a body
arrives. -/
inductive CallOutcome
  | refused
  | raised (error : TransportError)
  | body (bytes : List UInt8)

/-- What the call raises. -/
inductive CallError
  | transport
  | unicodeDecodeError
  | keyError
  | indexError
  | typeError
  | recursionError
deriving DecidableEq

/-- `value[key]`. -/
def itemAt (key : String) : JsonValue → Except CallError JsonValue
  | .obj fields =>
      match fields.lookup (ofText key.toList) with
      | some value => .ok value
      | none => .error .keyError
  | _ => .error .typeError

/-- `value[0]`; a mapping has no such key. -/
def firstItem : JsonValue → Except CallError JsonValue
  | .arr [] => .error .indexError
  | .arr (item :: _) => .ok item
  | .obj _ => .error .keyError
  | .str [] => .error .indexError
  | .str (point :: _) => .ok (.str [point])
  | _ => .error .typeError

/-- `parsed["choices"][0]["message"]["content"]`. -/
def contentOf (parsed : JsonValue) : Except CallError JsonValue := do
  let choices ← itemAt "choices" parsed
  let first ← firstItem choices
  let message ← itemAt "message" first
  itemAt "content" message

namespace AuditTables

variable (p : AuditTables)

/-- What the body's text is read for; the errors that are caught give no text. -/
def readBody (text : List Char) : Except CallError (Option Points) :=
  match loads p.toLimits (ofText text) with
  | .error .valueError => .ok none
  | .error .recursionError => .error .recursionError
  | .ok parsed =>
      match contentOf parsed with
      | .ok content => .ok (some (p.str content))
      | .error .keyError => .ok none
      | .error .indexError => .ok none
      | .error error => .error error

def callAuditModel : CallOutcome → Except CallError (Option Points)
  | .refused => .ok none
  | .raised .other => .error .transport
  | .raised _ => .ok none
  | .body bytes =>
      match decodeUtf8 bytes with
      | none => .error .unicodeDecodeError
      | some text => p.readBody text

/-- What the run raises; a report with a lone surrogate has no UTF-8. -/
inductive RunError
  | call (error : CallError)
  | parse (error : AuditError)
  | unicodeEncodeError

/-- `report_path.write_text(report, encoding="utf-8")`: the text of the file. -/
def writeText (report : Points) : Except RunError (List Char) :=
  match characters report with
  | some text => .ok text
  | none => .error .unicodeEncodeError

/-- `run_audit`, with the text of the report that it writes; without a call the audit is not
configured. -/
def runAudit (statistics : AuditStatistics) (modelId : Points) (call : Option CallOutcome) :
    Except RunError (List Char) :=
  match call with
  | none => writeText (p.renderReport statistics none)
  | some outcome =>
      match p.callAuditModel outcome with
      | .error error => .error (.call error)
      | .ok none => writeText (p.renderReport statistics none)
      | .ok (some raw) =>
          match p.parseAuditResponse raw with
          | .ok parsed =>
              writeText (p.renderReport statistics (some { parsed with usedModel := modelId }))
          | .error .valueError => writeText (p.renderReport statistics none)
          | .error error => .error (.parse error)

/-! ### Which outcomes are passed over -/

/-- A mapping in which the key is absent or has a value such as this. -/
def MappingWith (key : String) (accepts : JsonValue → Prop) (value : JsonValue) : Prop :=
  ∃ fields, value = .obj fields ∧ ∀ found, fields.lookup (ofText key.toList)
    = some found → accepts found

/-- A value whose first item is one such as this, or whose lack of one is caught. -/
def FirstIs (accepts : JsonValue → Prop) : JsonValue → Prop
  | .arr [] => True
  | .arr (item :: _) => accepts item
  | .obj _ => True
  | .str points => points = []
  | _ => False

/-- The shapes of a body that the call reads or passes over. -/
def WellShaped : JsonValue → Prop :=
  MappingWith "choices" (FirstIs (MappingWith "message" (MappingWith "content" fun _ => True)))

/-- The outcomes that the call answers with a text or `None`. -/
def Answered (p : AuditTables) : CallOutcome → Prop
  | .refused => True
  | .raised error => error ≠ .other
  | .body bytes =>
      ∃ text, decodeUtf8 bytes = some text
        ∧ (loads p.toLimits (ofText text) = .error .valueError
          ∨ ∃ parsed, loads p.toLimits (ofText text) = .ok parsed ∧ WellShaped parsed)

/-- The outcomes after which the run writes its report: what is audited of a reply can be read or is
no JSON, and the texts that the report takes from an envelope, and the model's id, have no lone
surrogate. -/
def Reported (p : AuditTables) (modelId : Points) : Option CallOutcome → Prop
  | none => True
  | some outcome =>
      p.Answered outcome
        ∧ ∀ raw, p.callAuditModel outcome = .ok (some raw) →
          p.Answerable raw
            ∧ ∀ fields, loads p.toLimits (p.auditedText raw) = .ok (.obj fields) →
              Writable modelId ∧ p.FieldsWritable fields

/-- The error is one that the reading of the body catches. -/
def Caught (error : CallError) : Prop := error = .keyError ∨ error = .indexError

/-- A computation that gives a value such as this or fails with an error that is caught. -/
def Yields {α : Type} (accepts : α → Prop) : Except CallError α → Prop
  | .ok value => accepts value
  | .error error => Caught error

theorem yields_bind {α β : Type} {accepts : β → Prop} (result : Except CallError α)
    (next : α → Except CallError β) :
    Yields accepts (result >>= next)
    ↔ Yields (fun value => Yields accepts (next value)) result := by
  cases result with
  | ok value => exact Iff.rfl
  | error error => exact Iff.rfl

theorem yields_itemAt {key : String} {accepts : JsonValue → Prop} (value : JsonValue) :
    Yields accepts (itemAt key value) ↔ MappingWith key accepts value := by
  have hother : (∀ fields, value ≠ .obj fields) → ¬ MappingWith key accepts value :=
    fun hvalue ⟨fields, hfields, _⟩ => hvalue fields hfields
  have htype : ¬ Caught .typeError := by
    rintro (h | h)
    · exact nomatch h
    · exact nomatch h
  cases value with
  | obj fields =>
      rw [itemAt]
      cases hlookup : fields.lookup (ofText key.toList) with
      | none =>
          refine iff_of_true (.inl rfl) ⟨fields, rfl, fun found hfound => ?_⟩
          exact nomatch hlookup.symm.trans hfound
      | some found =>
          constructor
          · intro haccepts
            refine ⟨fields, rfl, fun other hsame => ?_⟩
            rwa [← Option.some.inj (hlookup.symm.trans hsame)]
          · rintro ⟨other, hsame, hall⟩
            rw [← JsonValue.obj.inj hsame] at hall
            exact hall found hlookup
  | null => exact iff_of_false htype (hother nofun)
  | bool value => exact iff_of_false htype (hother nofun)
  | int value => exact iff_of_false htype (hother nofun)
  | float text => exact iff_of_false htype (hother nofun)
  | str points => exact iff_of_false htype (hother nofun)
  | arr items => exact iff_of_false htype (hother nofun)

theorem yields_firstItem {accepts : JsonValue → Prop} (hstr : ∀ points, ¬ accepts (.str points))
    (value : JsonValue) :
    Yields accepts (firstItem value) ↔ FirstIs accepts value := by
  have htype : ¬ Caught .typeError := by
    rintro (h | h)
    · exact nomatch h
    · exact nomatch h
  cases value with
  | arr items =>
      cases items with
      | nil => exact iff_of_true (.inr rfl) trivial
      | cons item items => exact Iff.rfl
  | obj fields => exact iff_of_true (.inl rfl) trivial
  | str points =>
      cases points with
      | nil => exact iff_of_true (.inr rfl) rfl
      | cons point points => exact iff_of_false (hstr [point]) (List.cons_ne_nil _ _)
  | null => exact iff_of_false htype id
  | bool value => exact iff_of_false htype id
  | int value => exact iff_of_false htype id
  | float text => exact iff_of_false htype id

theorem yields_contentOf (parsed : JsonValue) : Yields (fun _ => True) (contentOf parsed)
    ↔ WellShaped parsed := by
  have hmessage : ∀ first, Yields (fun _ => True) (itemAt "message" first >>= itemAt "content")
      ↔ MappingWith "message" (MappingWith "content" fun _ => True) first := by
    intro first
    rw [yields_bind, yields_itemAt]
    simp only [yields_itemAt]
  rw [contentOf, yields_bind, yields_itemAt, WellShaped]
  simp only [yields_bind (firstItem _), hmessage]
  have hfirst : ∀ choices,
      Yields (MappingWith "message" (MappingWith "content" fun _ => True)) (firstItem choices)
      ↔ FirstIs (MappingWith "message" (MappingWith "content" fun _ => True)) choices :=
    yields_firstItem fun points ⟨fields, hfields, _⟩ => nomatch hfields
  simp only [hfirst]

variable {p}

/-- A body's text is answered where it is no JSON, or its content is read or the lack of it caught. -/
theorem readBody_answers_iff (text : List Char) :
    (∃ reply, p.readBody text = .ok reply)
      ↔ loads p.toLimits (ofText text) = .error .valueError
        ∨ ∃ parsed, loads p.toLimits (ofText text) = .ok parsed ∧ WellShaped parsed := by
  rw [readBody]
  cases loads p.toLimits (ofText text) with
  | error error =>
      cases error with
      | valueError => exact iff_of_true ⟨none, rfl⟩ (.inl rfl)
      | recursionError =>
          refine iff_of_false (fun ⟨_, h⟩ => nomatch h) ?_
          rintro (h | ⟨_, h, -⟩)
          · exact nomatch h
          · exact nomatch h
  | ok parsed =>
      have hshape : ((.ok parsed : Except ScanError JsonValue) = .error .valueError
          ∨ ∃ other,
              (.ok parsed : Except ScanError JsonValue) = .ok other ∧ WellShaped other)
          ↔ WellShaped parsed := by
        constructor
        · rintro (h | ⟨other, hsame, h⟩)
          · exact nomatch h
          · rwa [Except.ok.inj hsame]
        · exact fun h => .inr ⟨parsed, rfl, h⟩
      have huncaught : ∀ {error : CallError}, error ≠ .keyError → error ≠ .indexError →
          ¬ Caught error := fun hkey hindex h => h.elim hkey hindex
      rw [hshape, ← yields_contentOf]
      dsimp only
      cases contentOf parsed with
      | ok content => exact iff_of_true ⟨_, rfl⟩ trivial
      | error error =>
          cases error with
          | keyError => exact iff_of_true ⟨none, rfl⟩ (.inl rfl)
          | indexError => exact iff_of_true ⟨none, rfl⟩ (.inr rfl)
          | transport => exact iff_of_false (fun ⟨_, h⟩ => nomatch h) (huncaught nofun nofun)
          | unicodeDecodeError =>
              exact iff_of_false (fun ⟨_, h⟩ => nomatch h) (huncaught nofun nofun)
          | typeError => exact iff_of_false (fun ⟨_, h⟩ => nomatch h) (huncaught nofun nofun)
          | recursionError => exact iff_of_false (fun ⟨_, h⟩ => nomatch h) (huncaught nofun nofun)

theorem callAuditModel_answers_iff (outcome : CallOutcome) :
    (∃ reply, p.callAuditModel outcome = .ok reply) ↔ p.Answered outcome := by
  cases outcome with
  | refused => exact iff_of_true ⟨none, rfl⟩ trivial
  | raised error =>
      cases error with
      | other => exact iff_of_false (fun ⟨_, h⟩ => nomatch h) fun h => h rfl
      | httpError => exact iff_of_true ⟨none, rfl⟩ nofun
      | urlError => exact iff_of_true ⟨none, rfl⟩ nofun
      | timeoutError => exact iff_of_true ⟨none, rfl⟩ nofun
  | body bytes =>
      rw [callAuditModel, Answered]
      cases decodeUtf8 bytes with
      | none => exact iff_of_false (fun ⟨_, h⟩ => nomatch h) fun ⟨_, h, _⟩ => nomatch h
      | some text =>
          refine (readBody_answers_iff text).trans ⟨fun h => ⟨text, rfl, h⟩, ?_⟩
          rintro ⟨other, hsame, h⟩
          rwa [Option.some.inj hsame]

theorem writeText_ok_iff (report : Points) : (∃ text, writeText report = .ok text)
    ↔ Writable report := by
  rw [← characters_isSome_iff, writeText]
  cases characters report with
  | none => exact iff_of_false (fun ⟨_, h⟩ => nomatch h) Bool.false_ne_true
  | some text => exact iff_of_true ⟨text, rfl⟩ rfl

theorem writeText_error {report : Points} (h : ¬ ∃ text, writeText report = .ok text) :
    writeText report = .error .unicodeEncodeError := by
  revert h
  rw [writeText]
  cases characters report with
  | none => exact fun _ => rfl
  | some text => exact fun h => absurd ⟨text, rfl⟩ h

/-- The report without findings can always be written. -/
theorem writeText_local (statistics : AuditStatistics) :
    ∃ text, writeText (p.renderReport statistics none) = .ok text :=
  (writeText_ok_iff _).mpr ((writable_renderReport statistics none).mpr fun _ h => nomatch h)

theorem writeText_answered_iff (statistics : AuditStatistics) (response : AuditResponse) :
    (∃ text, writeText (p.renderReport statistics (some response)) = .ok text)
      ↔ response.Writable := by
  rw [writeText_ok_iff, writable_renderReport]
  constructor
  · exact fun h => h response rfl
  · rintro h other hother
    rwa [← Option.some.inj hother]

/-- What the run makes of a reply. -/
theorem runAudit_reply_iff (statistics : AuditStatistics) (modelId raw : Points)
    {outcome : CallOutcome} (hcall : p.callAuditModel outcome = .ok (some raw)) :
    (∃ text, p.runAudit statistics modelId (some outcome) = .ok text) ↔ p.Answerable raw ∧
      ∀ fields, loads p.toLimits (p.auditedText raw) = .ok (.obj fields) → Writable modelId
        ∧ p.FieldsWritable fields := by
  have hlocal : p.parseAuditResponse raw = .error .valueError →
      ∀ fields, loads p.toLimits (p.auditedText raw) ≠ .ok (.obj fields) :=
    fun hparse fields hloads => by
    rw [parseAuditResponse, hloads] at hparse
    rcases readEnvelope_eq (p := p) raw fields with ⟨-, hok⟩ | ⟨-, error, hvalue, herror⟩
    · cases hok.symm.trans hparse
    · exact hvalue (Except.error.inj (herror.symm.trans hparse))
  rw [runAudit, ← parseAuditResponse_answers_iff]
  simp only [hcall]
  cases hparse : p.parseAuditResponse raw with
  | ok response =>
      obtain ⟨fields, hloads, -, rfl⟩ := parseAuditResponse_ok_iff.mp hparse
      dsimp only
      rw [writeText_answered_iff, writable_envelope_iff]
      constructor
      · refine fun h => ⟨.inl ⟨_, rfl⟩, fun other hother => ?_⟩
        rwa [← JsonValue.obj.inj (Except.ok.inj (hloads.symm.trans hother))]
      · exact fun h => h.2 fields hloads
  | error error =>
      have hraised : error ≠ .valueError →
          ¬ ((∃ response : AuditResponse, Except.error error = .ok response) ∨
          (Except.error error : Except AuditError AuditResponse) = .error .valueError) := by
        rintro hvalue (⟨response, h⟩ | h)
        · cases h
        · exact hvalue (Except.error.inj h)
      cases error with
      | valueError =>
          exact iff_of_true (writeText_local statistics)
            ⟨.inr rfl, fun fields hloads => absurd hloads (hlocal hparse fields)⟩
      | typeError | attributeError | overflowError | recursionError =>
          refine iff_of_false ?_ fun h => hraised (fun heq => by cases heq) h.1
          rintro ⟨text, htext⟩
          cases htext

theorem runAudit_reports_iff (statistics : AuditStatistics) (modelId : Points)
    (call : Option CallOutcome) :
    (∃ text, p.runAudit statistics modelId call = .ok text) ↔ p.Reported modelId call := by
  cases call with
  | none => exact iff_of_true (writeText_local statistics) trivial
  | some outcome =>
      rw [Reported, ← callAuditModel_answers_iff]
      cases hcall : p.callAuditModel outcome with
      | error error =>
          rw [runAudit, hcall]
          refine iff_of_false ?_ ?_
          · rintro ⟨text, htext⟩
            cases htext
          · rintro ⟨⟨text, htext⟩, -⟩
            cases htext
      | ok reply =>
          cases reply with
          | none =>
              rw [runAudit, hcall]
              refine iff_of_true (writeText_local statistics) ⟨⟨none, rfl⟩, fun raw hraw => ?_⟩
              cases hraw
          | some raw =>
              rw [runAudit_reply_iff statistics modelId raw hcall]
              constructor
              · refine fun h => ⟨⟨_, rfl⟩, fun other hsame => ?_⟩
                rwa [← Option.some.inj (Except.ok.inj hsame)]
              · exact fun h => h.2 raw rfl

/-- Exactly when the audit keeps what it promises of a reply, of any reply, of the call, and of the
report. -/
theorem auditReply_promised_iff (p : AuditTables) :
    (∀ layout fields object prose, p.WellLaid layout → ObjectText p.toLimits fields object →
      (p.parseAuditResponse (layout.reply object prose)
        = .ok (p.envelope (layout.reply object prose) fields)
        ↔ Trims object (p.tailOf prose layout) ∧ Readable fields))
      ∧ (∀ rawText, ((∃ response, p.parseAuditResponse rawText = .ok response)
          ∨ p.parseAuditResponse rawText = .error .valueError) ↔ p.Answerable rawText)
      ∧ (∀ outcome, (∃ reply, p.callAuditModel outcome = .ok reply) ↔ p.Answered outcome)
      ∧ ∀ statistics modelId call,
        (∃ text, p.runAudit statistics modelId call = .ok text) ↔ p.Reported modelId call := by
  refine ⟨?_, p.parseAuditResponse_answers_iff, callAuditModel_answers_iff, runAudit_reports_iff⟩
  intro layout fields object prose hlayout hobject
  exact parseAuditResponse_object_iff p hlayout hobject prose

/-- The tables on ASCII, of an interpreter with room for any text here. -/
def asciiAuditTables : AuditTables :=
  { maxDepth := 500, maxDigits := 4300, floatText := id
    isspace := Char.isWhitespace
    strOf := fun _ => ofText "value".toList
    parseFloat := fun _ => none
    intFloat := fun value => if value < 0 then "-1.0".toList else "1.0".toList
    fixed := id
    blanks := by
      intro ch hch
      fin_cases hch <;> rfl
    marks := by
      intro ch hch
      fin_cases hch <;> rfl }

/-- An envelope with a brace in one of its strings. -/
def bracedObject : Points :=
  ofText (braced ("\"negative_findings\": [\"".toList ++ ['}'] ++ "\"]".toList))

def plainObject : Points := ofText (braced "\"negative_findings\": [\"x\"]".toList)

/-- The body of a completion whose content is an envelope with a lone surrogate, escaped. -/
def surrogateBody : List UInt8 :=
  let content := braced "\\\"negative_findings\\\": [\\\"\\\\ud800\\\"]".toList
  let message := braced ("\"content\": \"".toList ++ content ++ "\"".toList)
  (braced ("\"choices\": [".toList ++ braced ("\"message\": ".toList ++ message) ++ "]".toList)).map
    fun ch => UInt8.ofNat ch.toNat

/-- The fields of an envelope with one negative finding. -/
def oneNegative (point : CodePoint) : List (Points × JsonValue) :=
  [(ofText "negative_findings".toList, .arr [.str [point]])]

theorem objectText_bracedObject :
    ObjectText asciiAuditTables.toLimits (oneNegative (.inl '}')) bracedObject :=
  ⟨rfl, rfl⟩

theorem objectText_plainObject :
    ObjectText asciiAuditTables.toLimits (oneNegative (.inl 'x')) plainObject :=
  ⟨rfl, rfl⟩

/-- A reply with a lone surrogate stops the run at its report. -/
theorem runAudit_surrogateBody (statistics : AuditStatistics) (modelId : Points) :
    asciiAuditTables.runAudit statistics modelId (some (.body surrogateBody))
      = .error .unicodeEncodeError := by
  have hparse : ∃ raw response, asciiAuditTables.callAuditModel (.body surrogateBody)
      = .ok (some raw) ∧
      asciiAuditTables.parseAuditResponse raw = .ok response
      ∧ [.inr 0] ∈ response.negativeFindings :=
    ⟨_, _, rfl, rfl, List.mem_singleton_self _⟩
  obtain ⟨raw, response, hcall, hreply, hnegative⟩ := hparse
  have hnot : ¬ ∃ text, writeText (asciiAuditTables.renderReport statistics
      (some { response with usedModel := modelId })) = .ok text := by
    rw [writeText_answered_iff]
    intro h
    obtain ⟨ch, hch⟩ := h.negatives [.inr 0] hnegative (.inr 0) List.mem_cons_self
    exact nomatch hch
  rw [runAudit, hcall]
  dsimp only
  rw [hreply]
  exact writeText_error hnot

/-- A brace in a string, a reply that is no object, a body that is no UTF-8, and a lone
surrogate. -/
theorem parseAuditResponse_bracedObject :
    ObjectText asciiAuditTables.toLimits (oneNegative (.inl '}')) bracedObject
      ∧ asciiAuditTables.parseAuditResponse bracedObject = .error .valueError
      ∧ asciiAuditTables.parseAuditResponse (ofText "[]".toList) = .error .attributeError
      ∧ asciiAuditTables.callAuditModel (.body [0xFF]) = .error .unicodeDecodeError
      ∧ ∀ statistics modelId,
        asciiAuditTables.runAudit statistics modelId (some (.body surrogateBody))
          = .error .unicodeEncodeError :=
  ⟨objectText_bracedObject, rfl, rfl, rfl, runAudit_surrogateBody⟩

theorem parseAuditResponse_plainObject :
    asciiAuditTables.parseAuditResponse (ofText "```json\n".toList
      ++ (plainObject ++ ofText "\n```".toList))
      = .ok { findings := [], negativeFindings := [[.inl 'x']]
              rawResponse := ofText "```json\n".toList ++ (plainObject ++ ofText "\n```".toList),
                usedModel := [] } := by
  have hlaid : asciiAuditTables.WellLaid (.fenced [] (ofText "json".toList) []) :=
    ⟨nofun, by decide, nofun⟩
  exact ((auditReply_promised_iff asciiAuditTables).1 (.fenced [] (ofText "json".toList) [])
    (oneNegative (.inl 'x'))
    plainObject (ofText "\n```".toList) hlaid objectText_plainObject).mpr
    ⟨.inl (by decide +kernel), ⟨trivial, trivial, fun items hitems => nomatch hitems⟩⟩

end AuditTables

end Quorum
