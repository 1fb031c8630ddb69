import Quorum.StreamFrames

/-! A well-formed stream, line by line, and the events it carries: the reader yields exactly
these. -/

namespace Quorum

/-- A line of a stream. -/
inductive SseLine
  | blank
  | comment (text : Text)
  | ignored (field text : Text)
  | data (spaced : Bool) (value : Text)
deriving DecidableEq

namespace SseLine

def text : SseLine → Text
  | blank => []
  | comment text => ':' :: text
  | ignored field text => field ++ text
  | data spaced value => sseDataField ++ (if spaced then [' '] else []) ++ value

/-- The line is one line, its field is one that is ignored by name, and its value begins where the
one optional space ends. -/
structure WellFormed (line : SseLine) : Prop where
  oneLine : ∀ ch ∈ line.text, ch ≠ '\n' ∧ ch ≠ '\r'
  field : ∀ field text, line = ignored field text → field ∈ sseIgnoredFields
  unspaced : ∀ value, line = data false value → value.head? ≠ some ' '

end SseLine

/-- A line with its break, which may have a carriage return before it. -/
structure WireLine where
  line : SseLine
  returns : Bool
deriving DecidableEq

def WireLine.content (wire : WireLine) : Text :=
  wire.line.text ++ if wire.returns then ['\r'] else []

/-- The text of a stream; the last line may lack its break. -/
def streamText (lines : List WireLine) (last : SseLine) : Text :=
  lines.flatMap (fun wire => wire.content ++ ['\n']) ++ last.text

/-- The data of the events that lines carry; the event under way at the end counts too. -/
def sseEvents (pending : List Text) : List SseLine → List Text
  | [] => if pending = [] then [] else [['\n'].intercalate pending]
  | .blank :: lines =>
      if pending = [] then sseEvents [] lines
      else ['\n'].intercalate pending :: sseEvents [] lines
  | .data _ value :: lines => sseEvents (pending ++ [value]) lines
  | _ :: lines => sseEvents pending lines

theorem encodeUtf8_singleton_newline : encodeUtf8 ['\n'] = [10] := by decide

theorem not_mem_encodeUtf8 (ch : Char) (hch : ch.toNat < 128) {text : Text} (h : ch ∉ text) :
    UInt8.ofNat ch.toNat ∉ encodeUtf8 text := by
  intro hmem
  have hnat : (UInt8.ofNat ch.toNat).toNat = ch.toNat := by
    rw [UInt8.toNat_ofNat']
    omega
  obtain ⟨other, hother, heq⟩ := mem_encodeUtf8_of_ascii (by rw [hnat]; exact hch) hmem
  rw [hnat] at heq
  rw [Char.toNat_inj.mp heq] at hother
  exact h hother

namespace SseLine

variable {line : SseLine}

theorem WellFormed.newline_not_mem (h : line.WellFormed) : '\n' ∉ line.text :=
  fun hmem => (h.oneLine '\n' hmem).1 rfl

theorem WellFormed.return_not_mem (h : line.WellFormed) : '\r' ∉ line.text :=
  fun hmem => (h.oneLine '\r' hmem).2 rfl

end SseLine

theorem WireLine.newline_not_mem_encode {wire : WireLine} (h : wire.line.WellFormed) :
    (10 : UInt8) ∉ encodeUtf8 wire.content := by
  refine not_mem_encodeUtf8 '\n' (by decide) fun hmem => ?_
  rw [content, List.mem_append] at hmem
  rcases hmem with hline | hreturn
  · exact h.newline_not_mem hline
  · split at hreturn
    · exact absurd hreturn (by decide)
    · exact absurd hreturn List.not_mem_nil

/-- The lines that the reader cuts are the stream's lines. -/
theorem cutLines_streamText {lines : List WireLine} {last : SseLine}
    (hlines : ∀ wire ∈ lines, wire.line.WellFormed) (hlast : last.WellFormed) :
    cutLines 10 (encodeUtf8 (streamText lines last))
      = (lines.map fun wire => encodeUtf8 wire.content, encodeUtf8 last.text) := by
  induction lines with
  | nil =>
      rw [streamText, List.flatMap_nil, List.nil_append, List.map_nil]
      exact cutLines_of_not_mem (not_mem_encodeUtf8 '\n' (by decide) hlast.newline_not_mem)
  | cons wire lines ih =>
      have hrest := ih fun other hother => hlines other (List.mem_cons_of_mem _ hother)
      have hsplit : encodeUtf8 (streamText (wire :: lines) last)
          = encodeUtf8 wire.content ++ 10 :: encodeUtf8 (streamText lines last) := by
        rw [streamText, List.flatMap_cons, List.append_assoc, List.append_assoc, encodeUtf8_append,
          encodeUtf8_append, encodeUtf8_singleton_newline, ← streamText]
        rfl
      rw [hsplit, cutLines_line (WireLine.newline_not_mem_encode (hlines wire List.mem_cons_self)),
        hrest, List.map_cons]

theorem rstripReturns_encode {text : Text} (h : '\r' ∉ text) (returns : Bool) :
    rstripReturns (encodeUtf8 (text ++ if returns then ['\r'] else [])) = encodeUtf8 text := by
  have hkeeps : rstripReturns (encodeUtf8 text) = encodeUtf8 text := by
    rw [rstripReturns, List.rdropWhile_eq_self_iff]
    intro hne hlast
    have hnot := not_mem_encodeUtf8 '\r' (by decide) h
    rw [decide_eq_true_eq] at hlast
    have hmem := List.getLast_mem hne
    rw [hlast] at hmem
    exact hnot hmem
  cases returns with
  | false => simpa using hkeeps
  | true =>
      have hreturn : encodeUtf8 ['\r'] = [13] := by decide
      rw [if_pos rfl, encodeUtf8_append, hreturn, rstripReturns,
        List.rdropWhile_concat_pos _ _ _ (by decide)]
      exact hkeeps

/-- What a well-formed line is read as. -/
def SseLine.value : SseLine → LineValue
  | .data _ value => .data value
  | _ => .ignored

theorem dataValue_encode {line : SseLine} (h : line.WellFormed) (hblank : line ≠ .blank)
    (returns : Bool) :
    dataValue (encodeUtf8 (line.text ++ if returns then ['\r'] else [])) = some line.value := by
  rw [dataValue, rstripReturns_encode h.return_not_mem, decodeUtf8_encode, Option.map_some]
  congr 1
  cases line with
  | blank => exact absurd rfl hblank
  | comment text => rfl
  | ignored field text =>
      have hfield : sseIgnoredFields.any fun field' => field'.isPrefixOf (field ++ text) :=
        List.any_eq_true.mpr ⟨field, h.field field text rfl,
          List.isPrefixOf_iff_prefix.mpr (List.prefix_append field text)⟩
      rw [SseLine.text, hfield, Bool.or_true]
      rfl
  | data spaced value =>
      have hrest : (sseDataField ++ (if spaced then [' '] else []) ++ value).drop
          sseDataField.length = (if spaced then [' '] else []) ++ value := by
        rw [List.append_assoc, List.drop_left]
      rw [SseLine.text, hrest]
      cases spaced with
      | true => rfl
      | false =>
          have hhead := h.unspaced value rfl
          cases value with
          | nil => rfl
          | cons ch rest =>
              have hne : ch ≠ ' ' := fun heq => hhead (by rw [heq]; rfl)
              have hspace : [' '].isPrefixOf (ch :: rest) = false := by
                simpa [List.isPrefixOf] using hne.symm
              simp only [Bool.false_eq_true, if_false, List.nil_append, hspace]
              rfl

namespace SseReading

/-- A well-formed line, as the reader takes it. -/
def readLine (reading : SseReading) : SseLine → SseReading
  | .blank => reading.dispatch
  | .data _ value => { reading with pending := reading.pending ++ [value] }
  | _ => reading

theorem takeValue_encode (reading : SseReading) {line : SseLine} (h : line.WellFormed)
    (hblank : line ≠ .blank) (returns : Bool) :
    reading.takeValue (encodeUtf8 (line.text ++ if returns then ['\r'] else []))
      = reading.readLine line := by
  rw [takeValue, dataValue_encode h hblank]
  cases line with
  | blank => exact absurd rfl hblank
  | comment text => rfl
  | ignored field text => rfl
  | data spaced value => rfl

theorem text_ne_nil {line : SseLine} (h : line.WellFormed) (hblank : line ≠ .blank) :
    ∃ ch ∈ [':', 'd', 'e', 'i', 'r'], line.text.head? = some ch := by
  cases line with
  | blank => exact absurd rfl hblank
  | comment text => exact ⟨':', by decide, rfl⟩
  | ignored field text =>
      have hfield := h.field field text rfl
      simp only [sseIgnoredFields, List.map_cons, List.map_nil, List.mem_cons, List.not_mem_nil,
        or_false] at hfield
      rcases hfield with rfl | rfl | rfl
      · exact ⟨'e', by decide, rfl⟩
      · exact ⟨'i', by decide, rfl⟩
      · exact ⟨'r', by decide, rfl⟩
  | data spaced value => exact ⟨'d', by decide, rfl⟩

theorem onLine_encode {reading : SseReading} (halive : reading.undecodable = false)
    {wire : WireLine} (h : wire.line.WellFormed) :
    reading.onLine (encodeUtf8 wire.content) = reading.readLine wire.line := by
  rw [onLine, if_neg (by simp [halive]), WireLine.content]
  by_cases hblank : wire.line = .blank
  · rw [rstripReturns_encode h.return_not_mem, hblank]
    exact if_pos rfl
  · rw [takeValue_encode reading h hblank, rstripReturns_encode h.return_not_mem, if_neg]
    obtain ⟨ch, -, hhead⟩ := text_ne_nil h hblank
    cases htext : wire.line.text with
    | nil =>
        rw [htext] at hhead
        exact absurd hhead (Option.some_ne_none ch).symm
    | cons first rest => simp [encodeUtf8_cons]

theorem readLine_undecodable (reading : SseReading) (line : SseLine) :
    (reading.readLine line).undecodable = reading.undecodable := by
  cases line with
  | blank =>
      rw [readLine, dispatch]
      split_ifs <;> rfl
  | comment text => rfl
  | ignored field text => rfl
  | data spaced value => rfl

theorem foldl_readLine_undecodable (lines : List SseLine) (reading : SseReading) :
    (lines.foldl readLine reading).undecodable = reading.undecodable := by
  induction lines generalizing reading with
  | nil => rfl
  | cons line lines ih => rw [List.foldl_cons, ih, readLine_undecodable]

theorem foldl_onLine_encode {lines : List WireLine}
    (hlines : ∀ wire ∈ lines, wire.line.WellFormed) {reading : SseReading}
    (halive : reading.undecodable = false) :
    (lines.map fun wire => encodeUtf8 wire.content).foldl onLine reading
      = (lines.map WireLine.line).foldl readLine reading := by
  induction lines generalizing reading with
  | nil => rfl
  | cons wire lines ih =>
      rw [List.map_cons, List.foldl_cons, onLine_encode halive (hlines wire List.mem_cons_self),
        ih (fun other hother => hlines other (List.mem_cons_of_mem _ hother))
          ((readLine_undecodable reading wire.line).trans halive)]
      rfl

/-- Reading lines yields the events they carry, the one under way included. -/
theorem dispatch_foldl_readLine (lines : List SseLine) (reading : SseReading) :
    (lines.foldl readLine reading).dispatch
      = { reading with
          frames := reading.frames ++ (sseEvents reading.pending lines).map SseFrame.data
          pending := [] } := by
  induction lines generalizing reading with
  | nil =>
      obtain ⟨frames, pending, undecodable⟩ := reading
      rw [List.foldl_nil, dispatch, sseEvents]
      split_ifs with hnone
      · simp only at hnone
        rw [hnone, List.map_nil, List.append_nil]
      · rfl
  | cons line lines ih =>
      rw [List.foldl_cons, ih]
      cases line with
      | blank =>
          rw [readLine, dispatch, sseEvents]
          split_ifs with hnone
          · rw [hnone]
          · rw [List.map_cons, List.append_assoc]
            rfl
      | comment text => rfl
      | ignored field text => rfl
      | data spaced value => rfl

theorem dispatch_dispatch (reading : SseReading) :
    reading.dispatch.dispatch = reading.dispatch := by
  have hpending : reading.dispatch.pending = [] := by
    rw [dispatch]
    split_ifs with hnone
    · exact hnone
    · rfl
  exact if_pos hpending

end SseReading

/-- A text whose first character is ASCII has no byte-order mark, and is not blank when that
character starts a line. -/
theorem stripBom_encode {text : Text} (h : ∀ ch, text.head? = some ch → ch.toNat < 128) :
    stripBom (encodeUtf8 text) = encodeUtf8 text := by
  refine if_neg fun hstarts => ?_
  rw [List.isPrefixOf_iff_prefix] at hstarts
  cases text with
  | nil => exact absurd (List.prefix_nil.mp hstarts) (by decide)
  | cons ch rest =>
      have hascii := h ch rfl
      rw [encodeUtf8_cons, utf8EncodeChar_of_ascii hascii] at hstarts
      have hbyte : (0xef : UInt8) = UInt8.ofNat ch.toNat :=
        (List.cons_prefix_cons.mp hstarts).1
      have hnat := congrArg UInt8.toNat hbyte
      rw [UInt8.toNat_ofNat'] at hnat
      have : (0xef : UInt8).toNat = 239 := rfl
      omega

theorem isBlank_encode {text : Text} {ch : Char} (hch : ch ∈ [':', 'd', 'e', 'i', 'r'])
    (h : text.head? = some ch) : isBlank (encodeUtf8 text) = false := by
  cases text with
  | nil => exact absurd h (Option.some_ne_none ch).symm
  | cons first rest =>
      rw [List.head?_cons, Option.some.injEq] at h
      subst h
      have hascii : first.toNat < 128 ∧ UInt8.ofNat first.toNat ∉ [9, 10, 11, 12, 13, 32] := by
        simp only [List.mem_cons, List.not_mem_nil, or_false] at hch
        rcases hch with rfl | rfl | rfl | rfl | rfl <;> decide
      rw [encodeUtf8_cons, utf8EncodeChar_of_ascii hascii.1, isBlank, List.singleton_append,
        List.all_cons, decide_eq_false hascii.2, Bool.false_and]

/-- The break characters between lines. -/
def isBreak (ch : Char) : Bool := ch = '\n' || ch = '\r'

/-- Past its breaks a stream goes on with the start of a line. -/
theorem dropWhile_isBreak_streamText {lines : List WireLine} {last : SseLine}
    (hlines : ∀ wire ∈ lines, wire.line.WellFormed) (hlast : last.WellFormed) {ch : Char}
    (h : ((streamText lines last).dropWhile isBreak).head? = some ch) :
    ch ∈ [':', 'd', 'e', 'i', 'r'] := by
  have hstart : ∀ (text rest : Text) (first : Char), first ∈ [':', 'd', 'e', 'i', 'r'] →
      text.head? = some first → ((text ++ rest).dropWhile isBreak).head? = some first := by
    intro text rest first hfirst hhead
    cases text with
    | nil => exact absurd hhead (Option.some_ne_none first).symm
    | cons head tail =>
        rw [List.head?_cons, Option.some.injEq] at hhead
        subst hhead
        have hbreak : ¬ isBreak head := by
          simp only [List.mem_cons, List.not_mem_nil, or_false] at hfirst
          rcases hfirst with rfl | rfl | rfl | rfl | rfl <;> decide
        rw [List.cons_append, List.dropWhile_cons_of_neg hbreak, List.head?_cons]
  induction lines with
  | nil =>
      rw [streamText, List.flatMap_nil, List.nil_append] at h
      by_cases hblank : last = .blank
      · rw [hblank] at h
        exact absurd h (Option.some_ne_none ch).symm
      · obtain ⟨first, hfirst, hhead⟩ := SseReading.text_ne_nil hlast hblank
        have hdrop := hstart last.text [] first hfirst hhead
        rw [List.append_nil, h, Option.some.injEq] at hdrop
        rwa [hdrop]
  | cons wire lines ih =>
      have hsplit : streamText (wire :: lines) last
          = wire.line.text ++ ((if wire.returns then ['\r'] else [])
              ++ '\n' :: streamText lines last) := by
        simp [streamText, WireLine.content, List.flatMap_cons]
      rw [hsplit] at h
      by_cases hblank : wire.line = .blank
      · refine ih (fun other hother => hlines other (List.mem_cons_of_mem _ hother)) ?_
        rw [hblank] at h
        cases hreturns : wire.returns <;> rw [hreturns] at h <;> exact h
      · obtain ⟨first, hfirst, hhead⟩ :=
          SseReading.text_ne_nil (hlines wire List.mem_cons_self) hblank
        have hdrop := hstart wire.line.text ((if wire.returns then ['\r'] else [])
          ++ '\n' :: streamText lines last) first hfirst hhead
        rw [h, Option.some.injEq] at hdrop
        rwa [hdrop]

theorem head_streamText_ascii {lines : List WireLine} {last : SseLine}
    (hlines : ∀ wire ∈ lines, wire.line.WellFormed) (hlast : last.WellFormed) {ch : Char}
    (h : (streamText lines last).head? = some ch) : ch.toNat < 128 := by
  by_cases hbreak : isBreak ch
  · rw [isBreak, Bool.or_eq_true, decide_eq_true_eq, decide_eq_true_eq] at hbreak
    rcases hbreak with rfl | rfl <;> decide
  · have hdrop : ((streamText lines last).dropWhile isBreak).head? = some ch := by
      cases htext : streamText lines last with
      | nil =>
          rw [htext] at h
          exact absurd h (Option.some_ne_none ch).symm
      | cons first rest =>
          rw [htext, List.head?_cons, Option.some.injEq] at h
          rw [← h] at hbreak ⊢
          rw [List.dropWhile_cons_of_neg hbreak, List.head?_cons]
    have hmem := dropWhile_isBreak_streamText hlines hlast hdrop
    simp only [List.mem_cons, List.not_mem_nil, or_false] at hmem
    rcases hmem with rfl | rfl | rfl | rfl | rfl <;> decide

theorem finishSse_eq {reader : LineReader SseReading UInt8} {reading : SseReading}
    (halive : reader.state.undecodable = false)
    (hread : (if isBlank reader.buffer then reader.state
      else reader.state.takeValue reader.buffer) = reading)
    (halive' : reading.undecodable = false) : finishSse reader = reading.dispatch := by
  subst hread
  rw [finishSse, if_neg (by simp [halive])]
  exact if_neg (by simp [halive'])

/-- The reader yields the events of a well-formed stream, however it was cut into chunks. -/
theorem iterSseData_encode {lines : List WireLine} {last : SseLine}
    (hlines : ∀ wire ∈ lines, wire.line.WellFormed) (hlast : last.WellFormed)
    {chunks : List Bytes} (hchunks : chunks.flatten = encodeUtf8 (streamText lines last))
    (hlong : sseBom.length ≤ (encodeUtf8 (streamText lines last)).length) :
    iterSseData chunks
      = { frames := (sseEvents [] (lines.map WireLine.line ++ [last])).map SseFrame.data
          pending := [], undecodable := false } := by
  have hfeed : LineReader.feed 10 SseReading.onLine sseBom.length stripBom
      (LineReader.fresh SseReading.initial) (encodeUtf8 (streamText lines last))
        = { state := (lines.map WireLine.line).foldl SseReading.readLine SseReading.initial
            buffer := encodeUtf8 last.text, started := true } := by
    rw [LineReader.feed, LineReader.fresh, List.nil_append, if_neg (by simp),
      if_neg (Nat.not_lt.mpr hlong),
      stripBom_encode fun ch hhead => head_streamText_ascii hlines hlast hhead, LineReader.drain,
      cutLines_streamText hlines hlast, SseReading.foldl_onLine_encode hlines rfl]
  have halive := SseReading.foldl_readLine_undecodable (lines.map WireLine.line) SseReading.initial
  have hall := SseReading.dispatch_foldl_readLine (lines.map WireLine.line ++ [last])
    SseReading.initial
  rw [List.foldl_append, List.foldl_cons, List.foldl_nil] at hall
  have hevents : (((lines.map WireLine.line).foldl SseReading.readLine
      SseReading.initial).readLine last).dispatch
        = { frames := (sseEvents [] (lines.map WireLine.line ++ [last])).map SseFrame.data
            pending := [], undecodable := false } := by
    rw [hall]
    rfl
  rw [iterSseData_flatten, hchunks, iterSseData, List.foldl_cons, List.foldl_nil, hfeed, ← hevents]
  by_cases hblank : last = .blank
  · have hempty : isBlank (encodeUtf8 last.text) = true := by rw [hblank]; rfl
    rw [hblank, SseReading.readLine, SseReading.dispatch_dispatch]
    exact finishSse_eq halive (if_pos (hblank ▸ hempty)) halive
  · obtain ⟨ch, hch, hhead⟩ := SseReading.text_ne_nil hlast hblank
    have htake := SseReading.takeValue_encode ((lines.map WireLine.line).foldl SseReading.readLine
      SseReading.initial) hlast hblank false
    rw [if_neg (by decide), List.append_nil] at htake
    refine finishSse_eq halive ((if_neg ?_).trans htake) ?_
    · simp [isBlank_encode hch hhead]
    · rw [SseReading.readLine_undecodable, halive]
      rfl

end Quorum
