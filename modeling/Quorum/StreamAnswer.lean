import Quorum.StreamReading

/-! A streamed answer equals the plain one: every stream that encodes a completion is answered as
the completion's own body is read, and no stream is answered before it stated that it had
finished. -/

namespace Quorum

open StreamFold

/-- A completion, as an upstream may state it in one body or in a stream. -/
structure Completion where
  content : Text
  annotations : List Json
  citations : List Json
  usage : Option (List (String × Json))
  finishReason : Option Text

/-- The field is the list; an empty list may be left out. -/
def IsListField (value : Option Json) (items : List Json) : Prop :=
  value = some (.arr items) ∨ (value = none ∨ value = some .null) ∧ items = []

/-- The payload states the completion in one body. -/
structure PlainBody (completion : Completion) (payload : Json) : Prop where
  message : ∃ message, firstMessage payload = some message
    ∧ message.get? "content" = some (.str completion.content)
    ∧ IsListField (message.get? "annotations") completion.annotations
    ∧ IsListField (message.get? "citations") completion.citations
  usage : (payload.get? "usage").bind Json.mapping? = completion.usage.map Json.obj
  finishReason : (firstChoice payload).bind (fun first => first.present? "finish_reason")
    = completion.finishReason.map Json.str

/-- The frames state the completion: its text cut anywhere, its lists spread over any deltas, its
usage the last one stated, its reason what the reasons settle on; other choices and keys may be
mixed in. -/
structure FramesState (completion : Completion) (frames : List Json) : Prop where
  noError : ∀ frame ∈ frames, frameError frame = none
  content : (frames.flatMap frameTexts).flatten = completion.content
  annotations : frames.flatMap (frameItems "annotations") = completion.annotations
  citations : frames.flatMap (frameItems "citations") = completion.citations
  usage : (frames.filterMap frameUsage).getLast? = completion.usage.map Json.obj
  finishReason : settledReason (frames.flatMap frameReasons)
    = completion.finishReason.map Json.str

namespace StreamTables

variable (t : StreamTables)

/-- The events are the frames' texts, and then the sentinel or the end after a stated reason. What
follows the sentinel may be anything. -/
def Encodes (events : List Text) (frames : List Json) : Prop :=
  ∃ texts rest, events = texts ++ rest
    ∧ List.Forall₂ (fun text frame => text ≠ sseDoneSentinel
        ∧ t.loads text = .ok frame) texts frames
    ∧ (rest.head? = some sseDoneSentinel ∨ rest = [] ∧ frames.flatMap frameReasons ≠ [])

/-- `json.loads` refuses a text that begins, past its line breaks, as a line of a stream begins. -/
def RefusesLines : Prop :=
  ∀ text value, t.loads text = .ok value →
    ∃ ch, (text.dropWhile isBreak).head? = some ch ∧ ch ∉ [':', 'd', 'e', 'i', 'r']

/-- The reading of a completion. -/
def readingOf (completion : Completion) : Extracted :=
  { answerText := completion.content
    sources := t.citationsOf
      (if completion.annotations = [] then completion.citations else completion.annotations)
      completion.content
    usage := (completion.usage.map Json.obj).bind usageOf
    isTruncated := completion.finishReason.any fun reason => reason ∈ uncleanFinishReasons }

theorem truthy_arr (items : List Json) : (Json.arr items).truthy = true ↔ items ≠ [] := by
  cases items <;> simp [Json.truthy]

theorem orElse_lists {left right : Option Json} {annotations citations : List Json}
    (hleft : IsListField left annotations) (hright : IsListField right citations) :
    ((orElse left right).bind Json.arr?).getD []
      = if annotations = [] then citations else annotations := by
  have hitems : ∀ {value : Option Json} {items : List Json}, IsListField value items →
      (value.bind Json.arr?).getD [] = items := by
    rintro value items (rfl | ⟨rfl | rfl, rfl⟩) <;> rfl
  have htruthy : left.any Json.truthy = true ↔ annotations ≠ [] := by
    rcases hleft with rfl | ⟨rfl | rfl, rfl⟩
    · rw [Option.any_some, truthy_arr]
    · simp
    · simp [Json.truthy]
  rw [orElse]
  split_ifs with hany hnone hnone
  · exact absurd hnone (htruthy.mp hany)
  · exact hitems hleft
  · exact hitems hright
  · exact absurd (htruthy.mpr hnone) hany

/-- A plain body is read as the completion it states. -/
theorem extracted_of_plainBody {completion : Completion} {payload : Json}
    (h : PlainBody completion payload) : t.extracted payload = t.readingOf completion := by
  obtain ⟨message, hmessage, hcontent, hannotations, hcitations⟩ := h.message
  have htext : extractMessageContent payload = completion.content := by
    rw [extractMessageContent, hmessage, Option.bind_some, hcontent]
  have hreason : finishReasonIndicatesTruncation payload
      = completion.finishReason.any fun reason => reason ∈ uncleanFinishReasons := by
    have hstated : ((firstChoice payload).bind fun first => first.get? "finish_reason").bind
        Json.str? = completion.finishReason := by
      simp only [Option.bind_assoc, ← Json.present?_bind_str?]
      rw [← Option.bind_assoc, h.finishReason]
      cases completion.finishReason <;> rfl
    rw [finishReasonIndicatesTruncation, hstated]
  rw [extracted, readingOf, htext, hreason, extractUsage, h.usage, extractCitations, hmessage]
  simp only [orElse_lists hannotations hcitations]

/-- The payload of a fold without errors is read as what the fold collected. -/
theorem extracted_payload {fold : StreamFold} (herror : fold.error = none)
    {usage : Option (List (String × Json))} (husage : fold.usage = usage.map Json.obj)
    {finishReason : Option Text} (hreason : fold.finishReason = finishReason.map Json.str) :
    t.extracted fold.payload
      = t.readingOf
          { content := fold.textParts.flatten, annotations := fold.annotations
            citations := fold.citations, usage, finishReason } := by
  have hplain : PlainBody
      { content := fold.textParts.flatten
        annotations := if fold.annotations = [] then fold.citations else fold.annotations
        citations := [], usage, finishReason } fold.payload :=
    { message := ?_, usage := ?_, finishReason := ?_ }
  · rw [t.extracted_of_plainBody hplain, readingOf, readingOf]
    by_cases hnone : fold.annotations = []
    · by_cases hnone' : fold.citations = []
      · simp [hnone, hnone']
      · simp [hnone, hnone']
    · simp [hnone]
  · rw [StreamFold.payload]
    generalize (if fold.annotations = [] then fold.citations else fold.annotations) = collected
    refine ⟨_, rfl, rfl, ?_, Or.inr ⟨Or.inl ?_, rfl⟩⟩
    · cases collected with
      | nil => exact Or.inr ⟨Or.inl rfl, rfl⟩
      | cons first rest => exact Or.inl rfl
    · cases collected <;> rfl
  · rw [StreamFold.payload, herror, husage]
    cases usage <;> rfl
  · rw [StreamFold.payload, herror, hreason]
    cases finishReason <;> rfl

/-- Error-free frames are folded, and past the sentinel nothing counts. -/
theorem foldFrames_encoded {texts rest : List Text} {frames : List Json}
    (hparsed : List.Forall₂ (fun text frame => text ≠ sseDoneSentinel ∧ t.loads text = .ok frame)
      texts frames)
    (hends : rest.head? = some sseDoneSentinel ∨ rest = []) (fold : StreamFold) :
    t.foldFrames fold ((texts ++ rest).map SseFrame.data)
      = (if rest = [] then frames.foldl takeFrame fold
          else { frames.foldl takeFrame fold with terminator := .done }, true) := by
  induction hparsed generalizing fold with
  | nil =>
      rcases hends with hdone | rfl
      · cases rest with
        | nil => exact absurd hdone (Option.some_ne_none _).symm
        | cons first rest =>
            rw [List.head?_cons, Option.some.injEq] at hdone
            rw [hdone, List.nil_append, List.map_cons, foldFrames, if_pos rfl,
              if_neg (List.cons_ne_nil _ _)]
            rfl
      · rfl
  | @cons text frame texts frames hfirst _ ih =>
      rw [List.cons_append, List.map_cons, foldFrames, if_neg hfirst.1, hfirst.2]
      exact ih (fold.takeFrame frame)

/-- What a fold of frames that state a completion, from the start, is read as. -/
theorem extracted_of_framesState {completion : Completion} {frames : List Json}
    (h : FramesState completion frames) (terminator : StreamTerminator) :
    t.extracted { frames.foldl takeFrame StreamFold.initial with terminator }.payload
      = t.readingOf completion := by
  have herror : (frames.foldl takeFrame StreamFold.initial).error = none := by
    refine foldl_takeFrame_kept h.noError StreamFold.initial StreamFold.error
      (fun _ _ _ _ => rfl) fun fold choice => ?_
    obtain ⟨_, htake⟩ := fold.takeCounted_eq choice
    rw [htake]
  have husage : (frames.foldl takeFrame StreamFold.initial).usage
      = completion.usage.map Json.obj := by
    rw [foldl_takeFrame_usage h.noError, h.usage]
    exact Option.or_none
  have hreason : (frames.foldl takeFrame StreamFold.initial).finishReason
      = completion.finishReason.map Json.str := by
    have hsettled := foldl_takeFrame_settled h.noError StreamFold.initial
    rw [← h.finishReason]
    exact congrArg Prod.fst (hsettled.trans (foldl_settle _))
  have htexts : (frames.foldl takeFrame StreamFold.initial).textParts.flatten
      = completion.content := by
    rw [foldl_takeFrame_textParts h.noError, ← h.content]
    rfl
  have hannotations : (frames.foldl takeFrame StreamFold.initial).annotations
      = completion.annotations := by
    rw [foldl_takeFrame_annotations h.noError, ← h.annotations]
    rfl
  have hcitations : (frames.foldl takeFrame StreamFold.initial).citations
      = completion.citations := by
    rw [foldl_takeFrame_citations h.noError, ← h.citations]
    rfl
  refine (t.extracted_payload herror husage hreason).trans ?_
  simp only [htexts, hannotations, hcitations]

theorem head?_dropWhile_of_part {isBreak : Char → Bool} {text full : Text} (h : text <+: full)
    {ch : Char} (hhead : (text.dropWhile isBreak).head? = some ch) :
    (full.dropWhile isBreak).head? = some ch := by
  obtain ⟨rest, rfl⟩ := h
  induction text with
  | nil => exact absurd hhead (Option.some_ne_none ch).symm
  | cons first text ih =>
      by_cases hbreak : isBreak first
      · rw [List.dropWhile_cons_of_pos hbreak] at hhead
        rw [List.cons_append, List.dropWhile_cons_of_pos hbreak]
        exact ih hhead
      · rw [List.dropWhile_cons_of_neg hbreak] at hhead
        rw [List.cons_append, List.dropWhile_cons_of_neg hbreak]
        exact hhead

variable {t}

/-- No part of a stream is a whole completion. -/
theorem RefusesLines.wholeCompletion_eq_none (hloads : t.RefusesLines) {lines : List WireLine}
    {last : SseLine} (hlines : ∀ wire ∈ lines, wire.line.WellFormed) (hlast : last.WellFormed)
    {chunks : List Bytes} (hchunks : chunks.flatten <+: encodeUtf8 (streamText lines last)) :
    t.wholeCompletion chunks = none := by
  rw [wholeCompletion]
  cases hdecode : decodeUtf8 (chunks.flatten.take nonSseBodyLimitBytes) with
  | none => rfl
  | some text =>
      have hpart := prefix_of_decodeUtf8 hdecode ((List.take_prefix _ _).trans hchunks)
      cases hvalue : t.loads text with
      | error message => simp [hvalue, Except.toOption]
      | ok value =>
          obtain ⟨ch, hhead, hnot⟩ := hloads text value hvalue
          exact absurd (dropWhile_isBreak_streamText hlines hlast
            (head?_dropWhile_of_part hpart hhead)) hnot

theorem exists_data_of_sseEvents {lines : List SseLine} (h : sseEvents [] lines ≠ []) :
    ∃ spaced value, SseLine.data spaced value ∈ lines := by
  induction lines with
  | nil => exact absurd rfl h
  | cons line lines ih =>
      have hrest : ∀ {found}, sseEvents [] lines ≠ [] →
          ∃ spaced value, SseLine.data spaced value ∈ found :: lines := by
        intro found hne
        obtain ⟨spaced, value, hmem⟩ := ih hne
        exact ⟨spaced, value, List.mem_cons_of_mem _ hmem⟩
      cases line with
      | data spaced value => exact ⟨spaced, value, List.mem_cons_self⟩
      | blank => exact hrest h
      | comment text => exact hrest h
      | ignored field text => exact hrest h

/-- A stream with an event is longer than a byte-order mark. -/
theorem length_of_sseEvents {lines : List WireLine} {last : SseLine}
    (h : sseEvents [] (lines.map WireLine.line ++ [last]) ≠ []) :
    sseBom.length ≤ (encodeUtf8 (streamText lines last)).length := by
  refine le_trans ?_ (length_le_encodeUtf8 _)
  have hdata : ∀ spaced value, 5 ≤ (SseLine.data spaced value).text.length := by
    intro spaced value
    rw [SseLine.text, List.append_assoc, List.length_append]
    exact Nat.le_add_right 5 _
  have hbom : sseBom.length = 3 := rfl
  obtain ⟨spaced, value, hmem⟩ := exists_data_of_sseEvents h
  have hlength := hdata spaced value
  rw [streamText, List.length_append, hbom]
  rcases List.mem_append.mp hmem with hmem | hmem
  · obtain ⟨wire, hwire, hline⟩ := List.mem_map.mp hmem
    have hpart := List.Sublist.length_le (List.sublist_flatten_of_mem
      (List.mem_map_of_mem (f := fun wire : WireLine => wire.content ++ ['\n']) hwire))
    rw [← List.flatMap_def, WireLine.content, hline, List.length_append,
      List.length_append] at hpart
    omega
  · rw [List.mem_singleton.mp hmem] at hlength
    omega

variable (t)

/-- A streamed completion is read, frame by frame, as the one that its frames state. -/
theorem readStream_encoded {lines : List WireLine} {last : SseLine}
    (hlines : ∀ wire ∈ lines, wire.line.WellFormed) (hlast : last.WellFormed) {frames : List Json}
    (hencodes : t.Encodes (sseEvents [] (lines.map WireLine.line ++ [last])) frames)
    {completion : Completion} (hstate : FramesState completion frames) {chunks : List Bytes}
    (hchunks : chunks.flatten = encodeUtf8 (streamText lines last)) :
    ∃ streamed, t.readStream chunks = .ok streamed ∧ streamed.bodyError = none
      ∧ streamed.terminator ≠ .none ∧ streamed.unrecognisedLines = 0
      ∧ t.extracted streamed.payload = t.readingOf completion := by
  obtain ⟨texts, rest, hevents, hparsed, hends⟩ := hencodes
  have hne : sseEvents [] (lines.map WireLine.line ++ [last]) ≠ [] := by
    rw [hevents]
    intro hnone
    obtain ⟨htexts, hrest⟩ := List.append_eq_nil_iff.mp hnone
    rcases hends with hdone | ⟨-, hreasons⟩
    · rw [hrest] at hdone
      exact absurd hdone (Option.some_ne_none _).symm
    · rw [htexts, List.forall₂_nil_left_iff] at hparsed
      exact hreasons (by rw [hparsed, List.flatMap_nil])
  have hreading := iterSseData_encode hlines hlast hchunks (length_of_sseEvents hne)
  rw [readStream, hreading, reassembleStreamedCompletion, hevents,
    t.foldFrames_encoded hparsed (hends.imp_right And.left)]
  have hkept : ∀ {ν : Type} (view : StreamFold → ν),
      (∀ (fold : StreamFold) count usage sites,
        view { fold with frameCount := count, usage, annotationSites := sites } = view fold) →
      (∀ fold choice, view (takeCounted fold choice) = view fold) →
      view (frames.foldl takeFrame StreamFold.initial) = view StreamFold.initial :=
    fun view hframe hchoice =>
      foldl_takeFrame_kept hstate.noError StreamFold.initial view hframe hchoice
  have hbody : (frames.foldl takeFrame StreamFold.initial).bodyError = none := by
    refine hkept StreamFold.bodyError (fun _ _ _ _ => rfl) fun fold choice => ?_
    obtain ⟨_, htake⟩ := fold.takeCounted_eq choice
    rw [htake]
  have hunrecognised : (frames.foldl takeFrame StreamFold.initial).unrecognised = 0 := by
    refine hkept StreamFold.unrecognised (fun _ _ _ _ => rfl) fun fold choice => ?_
    obtain ⟨_, htake⟩ := fold.takeCounted_eq choice
    rw [htake]
  by_cases hrest : rest = []
  · have hreasons : frames.flatMap frameReasons ≠ [] := by
      rcases hends with hdone | ⟨-, hreasons⟩
      · rw [hrest] at hdone
        exact absurd hdone (Option.some_ne_none _).symm
      · exact hreasons
    have hterminator : (frames.foldl takeFrame StreamFold.initial).terminator = .finishReason := by
      rw [foldl_takeFrame_terminator hstate.noError]
      exact (foldl_stopped _).trans (if_neg hreasons)
    rw [if_pos hrest]
    refine ⟨_, rfl, hbody, ?_, hunrecognised, t.extracted_of_framesState hstate
      (frames.foldl takeFrame StreamFold.initial).terminator⟩
    rw [StreamFold.completed, hterminator]
    exact fun h => by cases h
  · rw [if_neg hrest]
    refine ⟨_, rfl, hbody, ?_, hunrecognised, t.extracted_of_framesState hstate .done⟩
    rw [StreamFold.completed]
    exact fun h => by cases h

/-- A frame that ends a stream: the sentinel, or one with a reason or an error. -/
def terminates (frame : SseFrame) : Bool :=
  match frame with
  | .unrecognised => false
  | .data text =>
      text = sseDoneSentinel
        || match t.loads text with
          | .error _ => false
          | .ok frame => (frameError frame).isSome || frameReasons frame ≠ []

/-- Frames of which none ends the stream leave it without a terminator. -/
theorem foldFrames_unterminated {sseFrames : List SseFrame}
    (h : ∀ frame ∈ sseFrames, t.terminates frame = false) {fold : StreamFold}
    (hnone : fold.terminator = .none) :
    (t.foldFrames fold sseFrames).1.terminator = .none := by
  induction sseFrames generalizing fold with
  | nil => exact hnone
  | cons first rest ih =>
      have hrest := fun frame hframe => h frame (List.mem_cons_of_mem _ hframe)
      have hfirst := h first List.mem_cons_self
      cases first with
      | unrecognised =>
          rw [foldFrames]
          exact ih hrest hnone
      | data text =>
          rw [terminates, Bool.or_eq_false_iff, decide_eq_false_iff_not] at hfirst
          rw [foldFrames, if_neg hfirst.1]
          cases hloads : t.loads text with
          | error message => exact hnone
          | ok frame =>
              have hframe := hfirst.2
              rw [hloads] at hframe
              simp only [Bool.or_eq_false_iff, Option.isSome_eq_false_iff,
                Option.isNone_iff_eq_none, decide_eq_false_iff_not, not_not] at hframe
              refine ih hrest ?_
              have herror : ∀ other ∈ [frame], frameError other = none := by
                intro other hother
                rw [List.mem_singleton.mp hother]
                exact hframe.1
              have hstops := foldl_takeFrame_terminator herror fold
              rw [List.foldl_cons, List.foldl_nil, List.flatMap_singleton, hframe.2] at hstops
              exact hstops.trans hnone

/-- A stream that was cut before it ended is a dispatch whose charge nobody can state. -/
theorem bodyReply_unterminated (hloads : t.RefusesLines) (searched : Bool) {lines : List WireLine}
    {last : SseLine} (hlines : ∀ wire ∈ lines, wire.line.WellFormed) (hlast : last.WellFormed)
    {chunks : List Bytes} (hchunks : chunks.flatten <+: encodeUtf8 (streamText lines last))
    (hcut : ∀ frame ∈ (iterSseData chunks).frames, t.terminates frame = false) :
    t.bodyReply searched chunks = .dispatchUnmeasured := by
  have hterminator : (t.foldFrames StreamFold.initial (iterSseData chunks).frames).1.terminator
      = .none := t.foldFrames_unterminated hcut rfl
  rw [bodyReply]
  cases hread : t.readStream chunks with
  | error message => rfl
  | ok streamed =>
      have hkept : t.streamedOf streamed chunks = streamed := by
        rw [streamedOf, hloads.wholeCompletion_eq_none hlines hlast hchunks, Option.getD_none,
          ite_self]
      have hnone : streamed.terminator = .none := by
        rw [readStream, reassembleStreamedCompletion] at hread
        rcases hfold : t.foldFrames StreamFold.initial (iterSseData chunks).frames with
          ⟨fold, drained⟩
        rw [hfold] at hread hterminator
        simp only at hread hterminator
        split_ifs at hread
        rw [← Except.ok.inj hread]
        exact hterminator
      simp only [hkept, hnone]
      by_cases hbody : streamed.bodyError = none
      · rw [if_pos ⟨hbody, Or.inl trivial⟩]
      · rw [if_neg fun h => hbody h.1, if_pos hbody]

theorem bodyReply_encoded (hloads : t.RefusesLines) (searched : Bool) {lines : List WireLine}
    {last : SseLine} (hlines : ∀ wire ∈ lines, wire.line.WellFormed) (hlast : last.WellFormed)
    {frames : List Json}
    (hencodes : t.Encodes (sseEvents [] (lines.map WireLine.line ++ [last])) frames)
    {completion : Completion} (hstate : FramesState completion frames) {chunks : List Bytes}
    (hchunks : chunks.flatten = encodeUtf8 (streamText lines last)) :
    t.bodyReply searched chunks
      = .answered
          { answerText := (t.readingOf completion).answerText
            sources := (t.readingOf completion).sources
            usage := (t.readingOf completion).usage
            isTruncated := (t.readingOf completion).isTruncated, searched } := by
  obtain ⟨streamed, hread, hbody, hterminator, hunrecognised, hextracted⟩ :=
    t.readStream_encoded hlines hlast hencodes hstate hchunks
  have hkept : t.streamedOf streamed chunks = streamed := by
    rw [streamedOf, hloads.wholeCompletion_eq_none hlines hlast (hchunks ▸ List.prefix_rfl),
      Option.getD_none, ite_self]
  rw [bodyReply, hread]
  simp only [hkept, hextracted]
  rw [if_neg, if_neg (not_not.mpr hbody)]
  rintro ⟨-, hnone | hlines'⟩
  · exact hterminator hnone
  · exact hlines' hunrecognised

/-- Whatever stream states a completion, it is answered with the text, the citations, the usage and
the truncation that are read from the completion's plain body; and a stream of which no terminator
arrived is not answered at all. -/
theorem streamed_equals_plain (t : StreamTables) (hloads : t.RefusesLines) (searched : Bool)
    (lines : List WireLine) (last : SseLine) (hlines : ∀ wire ∈ lines, wire.line.WellFormed)
    (hlast : last.WellFormed) :
    (∀ completion plain frames chunks, PlainBody completion plain →
      t.Encodes (sseEvents [] (lines.map WireLine.line ++ [last])) frames →
      FramesState completion frames → chunks.flatten = encodeUtf8 (streamText lines last) →
      (∃ streamed, t.readStream chunks = .ok streamed
        ∧ t.extracted streamed.payload = t.extracted plain)
      ∧ t.bodyReply searched chunks
        = .answered
            { answerText := (t.extracted plain).answerText, sources := (t.extracted plain).sources
              usage := (t.extracted plain).usage, isTruncated := (t.extracted plain).isTruncated
              searched })
    ∧ ∀ chunks, chunks.flatten <+: encodeUtf8 (streamText lines last) →
      (∀ frame ∈ (iterSseData chunks).frames, t.terminates frame = false) →
      t.bodyReply searched chunks = .dispatchUnmeasured := by
  refine ⟨fun completion plain frames chunks hplain hencodes hstate hchunks => ?_,
    fun chunks hchunks hcut => t.bodyReply_unterminated hloads searched hlines hlast hchunks hcut⟩
  rw [t.extracted_of_plainBody hplain]
  obtain ⟨streamed, hread, -, -, -, hextracted⟩ :=
    t.readStream_encoded hlines hlast hencodes hstate hchunks
  exact ⟨⟨streamed, hread, hextracted⟩,
    t.bodyReply_encoded hloads searched hlines hlast hencodes hstate hchunks⟩

/-- The text of a frame with one choice of these fields. -/
def choiceText (fields : Text) : Text :=
  braced ("\"choices\":[".toList ++ braced fields ++ "]".toList)

def pieceText : Text := choiceText ("\"delta\":".toList ++ braced "\"content\":\"Hi\"".toList)

def stopText : Text := choiceText "\"finish_reason\":\"stop\"".toList

def pieceFrame : Json :=
  .obj [("choices", .arr [.obj [("delta", .obj [("content", .str "Hi".toList)])]])]

def stopFrame : Json :=
  .obj [("choices", .arr [.obj [("finish_reason", .str "stop".toList)]])]

/-- `json.loads` on two frames. -/
def twoFrameTables : StreamTables :=
  { TextTables.asciiTables with
    loads := fun text =>
      if text = pieceText then .ok pieceFrame
      else if text = stopText then .ok stopFrame
      else .error "JSONDecodeError"
    hostname := fun _ => none
    isControlOrFormat := fun _ => false
    sourceFetchMaxTextChars := 100 }

theorem twoFrameTables_refusesLines : twoFrameTables.RefusesLines := by
  intro text value h
  have hcases : text = pieceText ∨ text = stopText := by
    by_contra hneither
    rw [not_or] at hneither
    have hloads : twoFrameTables.loads text = .error "JSONDecodeError" := by
      simp [twoFrameTables, hneither.1, hneither.2]
    exact absurd (hloads.symm.trans h) (by simp)
  rcases hcases with rfl | rfl
  · exact ⟨'{', rfl, by decide⟩
  · exact ⟨'{', rfl, by decide⟩

def twoFrameLines : List WireLine :=
  [{ line := .data true pieceText, returns := false }, { line := .blank, returns := false },
    { line := .comment [], returns := true }, { line := .data true stopText, returns := false }]

theorem twoFrameLines_wellFormed : ∀ wire ∈ twoFrameLines, wire.line.WellFormed := by
  have hall : ((twoFrameLines.map WireLine.line).all fun line =>
      line.text.all fun ch => decide (ch ≠ '\n' ∧ ch ≠ '\r')) = true := by decide
  have hone : ∀ line ∈ twoFrameLines.map WireLine.line, ∀ ch ∈ line.text, ch ≠ '\n' ∧ ch ≠ '\r' :=
    fun line hline ch hch =>
      of_decide_eq_true (List.all_eq_true.mp (List.all_eq_true.mp hall line hline) ch hch)
  intro wire hwire
  refine ⟨hone wire.line (List.mem_map_of_mem hwire), fun field text hline => ?_,
    fun value hline => ?_⟩
  · have hnone : ∀ wire ∈ twoFrameLines, ∀ field text, wire.line ≠ .ignored field text := by
      simp [twoFrameLines]
    exact absurd hline (hnone wire hwire field text)
  · have hnone : ∀ wire ∈ twoFrameLines, ∀ value, wire.line ≠ .data false value := by
      simp [twoFrameLines]
    exact absurd hline (hnone wire hwire value)

def twoFramePlain : Json :=
  .obj [("choices", .arr [.obj [("message", .obj [("content", .str "Hi".toList)]),
    ("finish_reason", .str "stop".toList)]])]

theorem streamed_equals_plain_twoFrames :
    twoFrameTables.bodyReply true [encodeUtf8 (streamText twoFrameLines .blank)]
        = .answered
            { answerText := "Hi".toList, sources := [], usage := none, isTruncated := false
              searched := true }
      ∧ twoFrameTables.bodyReply true [encodeUtf8 (streamText (twoFrameLines.take 2) .blank)]
        = .dispatchUnmeasured := by
  have hblank : SseLine.blank.WellFormed := ⟨List.forall_mem_nil _, nofun, nofun⟩
  have hequals := streamed_equals_plain twoFrameTables twoFrameTables_refusesLines true
    twoFrameLines .blank twoFrameLines_wellFormed hblank
  have hplain : PlainBody
      { content := "Hi".toList, annotations := [], citations := [], usage := none
        finishReason := some "stop".toList } twoFramePlain :=
    { message := ⟨_, rfl, rfl, Or.inr ⟨Or.inl rfl, rfl⟩, Or.inr ⟨Or.inl rfl, rfl⟩⟩
      usage := rfl
      finishReason := rfl }
  have hencodes : twoFrameTables.Encodes
      (sseEvents [] (twoFrameLines.map WireLine.line ++ [.blank])) [pieceFrame, stopFrame] := by
    refine ⟨[pieceText, stopText], [], by decide, ?_, Or.inr ⟨rfl, List.cons_ne_nil _ _⟩⟩
    exact List.Forall₂.cons ⟨by decide, rfl⟩ (List.Forall₂.cons ⟨by decide, rfl⟩ List.Forall₂.nil)
  have hstate : FramesState
      { content := "Hi".toList, annotations := [], citations := [], usage := none
        finishReason := some "stop".toList } [pieceFrame, stopFrame] :=
    { noError := by
        intro frame hframe
        rcases List.mem_cons.mp hframe with rfl | hframe
        · rfl
        · rw [List.mem_singleton.mp hframe]
          rfl
      content := rfl
      annotations := rfl
      citations := rfl
      usage := rfl
      finishReason := rfl }
  refine ⟨?_, hequals.2 _ ?_ ?_⟩
  · rw [(hequals.1 _ _ _ _ hplain hencodes hstate List.flatten_singleton).2]
    have hread : twoFrameTables.extracted twoFramePlain
        = { answerText := "Hi".toList, sources := [], usage := none, isTruncated := false } := by
      decide +kernel
    rw [hread]
  · have hsplit : streamText twoFrameLines .blank
        = streamText (twoFrameLines.take 2) .blank
          ++ streamText (twoFrameLines.drop 2) .blank := by
      decide
    rw [List.flatten_singleton, hsplit, encodeUtf8_append]
    exact List.prefix_append _ _
  · have hwell : ∀ wire ∈ twoFrameLines.take 2, wire.line.WellFormed :=
      fun wire hwire => twoFrameLines_wellFormed wire (List.mem_of_mem_take hwire)
    have hframes := iterSseData_encode hwell hblank List.flatten_singleton
      (length_of_sseEvents (by decide))
    have hdata : sseEvents [] ((twoFrameLines.take 2).map WireLine.line ++ [.blank])
        = [pieceText] := by
      decide
    rw [hframes, hdata]
    intro frame hframe
    rw [List.mem_singleton.mp hframe]
    rfl

end StreamTables

end Quorum
