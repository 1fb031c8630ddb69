import Quorum.PanelEvidence
import Quorum.PromptRows
import Quorum.SynthesisSections

/-! How a reply in a debate round is read (`debate`), the moderator's and a critic's, over every
outcome of the JSON decoder: which replies are shown, which give way to the template and which
raise. -/

namespace Quorum

/-- What `json.loads` does with a text. -/
inductive Decoded where
  | value (payload : Json)
  | valueError
  | recursionError

def Decoded.payload? : Decoded → Option Json
  | .value payload => some payload
  | .valueError => none
  | .recursionError => none

/-- What a round's text is, whether it is the template's, and the stance it carries. -/
structure RoundText where
  critiqueText : Text
  fallbackNotice : Option Text
  panelStance : Option PanelStance

/-- A round-two critic's report on its own answer. -/
structure PeerConvergence where
  selfAssessment : Option Text
  rationale : Text
  sources : List Text
  revisedAnswer : Text

/-- The report of a critic that said nothing. -/
def PeerConvergence.silent : PeerConvergence :=
  { selfAssessment := none, rationale := [], sources := [], revisedAnswer := [] }

def selfAssessments : List Text :=
  ["held_agreement", "held_solution", "amended", "changed"].map String.toList

def maxCriticSources : ℕ := 6

def debateFallbackNotice (roundNumber : ℕ) : Text :=
  ("Debate round " ++ toString roundNumber ++ " used a local heuristic because the "
    ++ "live moderator call failed or was not configured.").toList

/-- A round whose moderator showed nothing usable. -/
def fallbackRound (roundNumber : ℕ) (templated : Text) : RoundText :=
  { critiqueText := templated, fallbackNotice := some (debateFallbackNotice roundNumber)
    panelStance := none }

/-- A critic that showed nothing usable. -/
def fallbackCritique (slotNumber roundNumber : ℕ) : SlotCritique :=
  { criticSlotNumber := slotNumber,
    critiqueText := PanelTables.peerFallbackNotice slotNumber roundNumber
    critiqueMode := .fallback, stance := none }

namespace PanelTables

variable (p : PanelTables) (decode : Text → Decoded)

/-- The tables with a decoder whose errors are all taken for unreadable text. -/
def decoding : PanelTables :=
  { p with loads := fun text => (decode text).payload? }

/-- `parse_moderator_output`, whose `except` clause names `ValueError` and `TypeError` alone. -/
def readModeratorOutput (raw : Text) : Except String (Text × Option PanelStance) :=
  if p.strip raw = [] then .ok (p.strip raw, none)
  else
    match decode (p.strip raw) with
    | .recursionError => .error "RecursionError"
    | .valueError => .ok ((p.decoding decode).parseModeratorOutput raw)
    | .value _ => .ok ((p.decoding decode).parseModeratorOutput raw)

/-- `parse_peer_convergence`, whose `except` clause names `RecursionError` too. -/
def parsePeerConvergence (raw : Text) : PeerConvergence :=
  if raw = [] then .silent
  else
    match decode raw with
    | .value (.obj fields) =>
        let payload := Json.obj fields
        let assessment :=
          ((payload.get? "self_assessment").bind Json.str?).filter (· ∈ selfAssessments)
        let items := ((payload.get? "sources").bind Json.arr?).getD []
        { selfAssessment := assessment
          rationale := ((payload.get? "rationale").bind Json.str?).getD []
          sources := ((items.take maxCriticSources).filterMap Json.str?).filter p.isVisible
            |>.map fun item => (p.oneLine item).take maxSourceUrlLen
          revisedAnswer := ((payload.get? "revised_answer").bind Json.str?).getD [] }
    | .value _ => .silent
    | .valueError => .silent
    | .recursionError => .silent

/-- A moderator's round: its prose when something of the reply can be shown, else the template. -/
def moderatorRoundText (roundNumber : ℕ) (templated : Text) (live : Option Text) :
    Except String RoundText :=
  let text := (live.map p.strip).getD []
  if p.isVisible text then do
    let (prose, stance) ← p.readModeratorOutput decode text
    return if p.isVisible prose then
      { critiqueText := prose, fallbackNotice := none, panelStance := stance }
    else fallbackRound roundNumber templated
  else .ok (fallbackRound roundNumber templated)

def buildRoundOneText : Text → Option Text → Except String RoundText :=
  p.moderatorRoundText decode 1

def buildRoundTwoText : Text → Option Text → Except String RoundText :=
  p.moderatorRoundText decode 2

/-- One critic's reply, with its report on its own answer in round two. -/
def readCritique (slotNumber roundNumber : ℕ) (live : Option Text) :
    Except String (SlotCritique × PeerConvergence) :=
  let text := (live.map p.strip).getD []
  if p.isVisible text then do
    let (prose, stance) ← p.readModeratorOutput decode text
    return if p.isVisible prose then
      ({ criticSlotNumber := slotNumber, critiqueText := prose, critiqueMode := .live, stance },
        if roundNumber = 2 then p.parsePeerConvergence decode text else .silent)
    else (fallbackCritique slotNumber roundNumber, .silent)
  else .ok (fallbackCritique slotNumber roundNumber, .silent)

/-- A round that was read: the template without a stance, or prose that is no machine output. -/
def ShownRound (templated : Text) (out : RoundText) : Prop :=
  (out.fallbackNotice.isSome → out.critiqueText = templated ∧ out.panelStance = none)
    ∧ (out.fallbackNotice = none → p.looksLikeMachineOutput out.critiqueText = false)

/-- A critic's reply that was read, likewise. -/
def ShownCritique (slotNumber roundNumber : ℕ) (critique : SlotCritique) : Prop :=
  (critique.critiqueMode = .fallback →
      critique.critiqueText = peerFallbackNotice slotNumber roundNumber ∧ critique.stance = none)
    ∧ (critique.critiqueMode = .live → p.looksLikeMachineOutput critique.critiqueText = false)

/-- No reply fails the round: a moderator's and a critic's reading both return what may be shown. -/
def ReplyNeverFails (slotNumber roundNumber : ℕ) (templated : Text) (live : Option Text) : Prop :=
  (∃ out, p.moderatorRoundText decode roundNumber templated live = .ok out
    ∧ p.ShownRound templated out)
    ∧ ∃ critique convergence, p.readCritique decode slotNumber roundNumber live
        = .ok (critique, convergence)
        ∧ p.ShownCritique slotNumber roundNumber critique

/-- The envelope's critique is itself machine output, such as an envelope encoded twice. -/
def QuotesMachineOutput (text : Text) : Prop :=
  ∃ fields critique, decode text = .value (.obj fields)
    ∧ (Json.obj fields).get? "critique" = some (.str critique)
    ∧ p.isVisible (p.strip critique) = true ∧ p.looksLikeMachineOutput (p.strip critique) = true

/-- The decoder does not run out of stack on the reply, and its critique is no machine output. -/
def ReadableReply (live : Option Text) : Prop :=
  ∀ text ∈ live.map p.strip, p.isVisible text = true →
    decode text ≠ .recursionError ∧ ¬ p.QuotesMachineOutput decode text

variable {p} {decode}

theorem isVisible_nil : p.isVisible [] = false := rfl

theorem ne_nil_of_isVisible {text : Text} (h : p.isVisible text = true) : text ≠ [] := by
  rintro rfl
  rw [isVisible_nil] at h
  cases h

theorem readModeratorOutput_recursion {text : Text} (hne : p.strip text ≠ [])
    (hdecode : decode (p.strip text) = .recursionError) :
    p.readModeratorOutput decode text = .error "RecursionError" := by
  rw [readModeratorOutput, if_neg hne, hdecode]

/-- The prose of an unreadable reply, read with a decoder that failed on it. -/
theorem parseModeratorOutput_unread {text : Text} (hstrip : p.strip text = text) (hne : text ≠ [])
    (hdecode : (decode text).payload? = none) :
    (p.decoding decode).parseModeratorOutput text
      = (if p.looksLikeMachineOutput text then [] else text, none) := by
  have hloads : (p.decoding decode).loads text = none := hdecode
  have hsame : (p.decoding decode).strip text = text := hstrip
  simp only [parseModeratorOutput, hsame, if_neg hne, hloads]
  rfl

/-- The prose of an envelope is its critique. -/
theorem parseModeratorOutput_object {text : Text} {fields : List (String × Json)}
    (hstrip : p.strip text = text) (hne : text ≠ [])
    (hdecode : decode text = .value (.obj fields)) :
    ((p.decoding decode).parseModeratorOutput text).1
      = p.strip ((((Json.obj fields).get? "critique").bind Json.str?).getD []) := by
  have hloads : (p.decoding decode).loads text = some (.obj fields) := by
    change (decode text).payload? = _
    rw [hdecode]
    rfl
  have hsame : (p.decoding decode).strip text = text := hstrip
  simp only [parseModeratorOutput, hsame, if_neg hne, hloads]
  rfl

/-- A payload that is no object is machine output, and nothing of it is shown. -/
theorem parseModeratorOutput_other {text : Text} {payload : Json} (hstrip : p.strip text = text)
    (hne : text ≠ []) (hdecode : decode text = .value payload)
    (hother : ∀ fields, payload ≠ .obj fields) :
    (p.decoding decode).parseModeratorOutput text = ([], none) := by
  have hloads : (p.decoding decode).loads text = some payload := by
    change (decode text).payload? = _
    rw [hdecode]
    rfl
  have hsame : (p.decoding decode).strip text = text := hstrip
  cases payload with
  | obj fields => exact absurd rfl (hother fields)
  | null | bool | int | float | str | arr =>
      simp only [parseModeratorOutput, hsame, if_neg hne, hloads]

theorem strip_nil : p.strip [] = [] := rfl

/-- Text to show comes from a critique that is a string. -/
theorem critique_of_isVisible {payload : Json}
    (hvisible : p.isVisible (p.strip (((payload.get? "critique").bind Json.str?).getD [])) = true) :
    ∃ critique, payload.get? "critique" = some (.str critique) := by
  cases hstring : (payload.get? "critique").bind Json.str? with
  | none =>
      rw [hstring, Option.getD_none, strip_nil, isVisible_nil] at hvisible
      cases hvisible
  | some critique =>
      obtain ⟨value, hvalue, hstr⟩ := Option.bind_eq_some_iff.mp hstring
      cases value with
      | str text => exact ⟨text, hvalue⟩
      | _ => cases hstr

/-- A critique that is no string counts as an empty one. -/
theorem quotesMachineOutput_object {text : Text} {fields : List (String × Json)}
    (hdecode : decode text = .value (.obj fields)) :
    p.QuotesMachineOutput decode text ↔
      p.isVisible (p.strip ((((Json.obj fields).get? "critique").bind Json.str?).getD [])) = true
        ∧ p.looksLikeMachineOutput
            (p.strip ((((Json.obj fields).get? "critique").bind Json.str?).getD [])) = true := by
  constructor
  · rintro ⟨fields', critique, hsame, hcritique, hshown⟩
    rw [hdecode] at hsame
    cases hsame
    simpa [hcritique, Json.str?] using hshown
  · rintro ⟨hvisible, hmachine⟩
    obtain ⟨critique, hcritique⟩ := critique_of_isVisible hvisible
    rw [hcritique] at hvisible hmachine
    exact ⟨fields, critique, hdecode, hcritique, hvisible, hmachine⟩

theorem not_quotesMachineOutput {text : Text}
    (hdecode : ∀ fields, decode text ≠ .value (.obj fields)) :
    ¬ p.QuotesMachineOutput decode text := by
  rintro ⟨fields, _, hsame, -⟩
  exact hdecode fields hsame

/-- What is read of a stripped reply is machine output only where its envelope quotes some. -/
theorem readModeratorOutput_ok {text : Text} (hstrip : p.strip text = text) (hne : text ≠ [])
    (hdecode : decode text ≠ .recursionError) :
    ∃ prose stance, p.readModeratorOutput decode text = .ok (prose, stance)
      ∧ (p.isVisible prose = true →
          (p.looksLikeMachineOutput prose = true ↔ p.QuotesMachineOutput decode text))
      ∧ (p.isVisible prose = false → ¬ p.QuotesMachineOutput decode text) := by
  rw [readModeratorOutput, if_neg (by rwa [hstrip]), hstrip]
  cases hout : decode text with
  | recursionError => exact absurd hout hdecode
  | valueError =>
      have hquote : ¬ p.QuotesMachineOutput decode text :=
        not_quotesMachineOutput fun fields hobj => by simp [hout] at hobj
      rw [parseModeratorOutput_unread hstrip hne (by rw [hout]; rfl)]
      refine ⟨_, _, rfl, ?_, fun _ => hquote⟩
      cases hmachine : p.looksLikeMachineOutput text with
      | true => exact fun hvisible => by simp [isVisible_nil] at hvisible
      | false => simp [hmachine, hquote]
  | value payload =>
      by_cases hobj : ∃ fields, payload = .obj fields
      · obtain ⟨fields, rfl⟩ := hobj
        have hquote := quotesMachineOutput_object (p := p) hout
        have hprose := parseModeratorOutput_object hstrip hne hout
        generalize (p.decoding decode).parseModeratorOutput text = reading at hprose
        obtain ⟨prose, stance⟩ := reading
        subst hprose
        refine ⟨_, stance, rfl, ?_, ?_⟩
        · rw [hquote]
          exact fun hvisible => ⟨fun hmachine => ⟨hvisible, hmachine⟩, fun hboth => hboth.2⟩
        · rw [hquote]
          exact fun hvisible hboth => Bool.false_ne_true (hvisible.symm.trans hboth.1)
      · have hother : ∀ fields, payload ≠ .obj fields := fun fields heq => hobj ⟨fields, heq⟩
        have hquote : ¬ p.QuotesMachineOutput decode text :=
          not_quotesMachineOutput fun fields hvalue => by
            rw [hout] at hvalue
            cases hvalue
            exact hobj ⟨fields, rfl⟩
        rw [parseModeratorOutput_other hstrip hne hout hother]
        exact ⟨_, _, rfl, fun hvisible => by simp [isVisible_nil] at hvisible, fun _ => hquote⟩

section
variable {slotNumber roundNumber : ℕ} {templated text prose : Text} {stance : Option PanelStance}
  {live : Option Text}

theorem moderatorRoundText_blank (hblank : p.isVisible ((live.map p.strip).getD []) = false) :
    p.moderatorRoundText decode roundNumber templated live
      = .ok (fallbackRound roundNumber templated) := by
  simp [moderatorRoundText, hblank]

theorem moderatorRoundText_read (htext : p.isVisible ((live.map p.strip).getD []) = true)
    (hread : p.readModeratorOutput decode ((live.map p.strip).getD []) = .ok (prose, stance)) :
    p.moderatorRoundText decode roundNumber templated live
      = .ok (if p.isVisible prose then
          { critiqueText := prose, fallbackNotice := none, panelStance := stance }
        else fallbackRound roundNumber templated) := by
  simp only [moderatorRoundText, htext, if_true, hread]
  rfl

theorem moderatorRoundText_error {error : String}
    (htext : p.isVisible ((live.map p.strip).getD []) = true)
    (hread : p.readModeratorOutput decode ((live.map p.strip).getD []) = .error error) :
    p.moderatorRoundText decode roundNumber templated live = .error error := by
  simp only [moderatorRoundText, htext, if_true, hread]
  rfl

theorem readCritique_blank (hblank : p.isVisible ((live.map p.strip).getD []) = false) :
    p.readCritique decode slotNumber roundNumber live
      = .ok (fallbackCritique slotNumber roundNumber, .silent) := by
  simp [readCritique, hblank]

theorem readCritique_read (slotNumber roundNumber : ℕ)
    (htext : p.isVisible ((live.map p.strip).getD []) = true)
    (hread : p.readModeratorOutput decode ((live.map p.strip).getD []) = .ok (prose, stance)) :
    ∃ convergence, p.readCritique decode slotNumber roundNumber live
      = .ok (if p.isVisible prose then
          { criticSlotNumber := slotNumber, critiqueText := prose, critiqueMode := .live, stance }
        else fallbackCritique slotNumber roundNumber, convergence) := by
  have hout : p.readCritique decode slotNumber roundNumber live
      = .ok (if p.isVisible prose then
          ({ criticSlotNumber := slotNumber, critiqueText := prose, critiqueMode := .live, stance },
            if roundNumber = 2 then p.parsePeerConvergence decode ((live.map p.strip).getD [])
            else .silent)
        else (fallbackCritique slotNumber roundNumber, .silent)) := by
    simp only [readCritique, htext, if_true, hread]
    rfl
  cases hprose : p.isVisible prose <;> rw [hout, hprose] <;> exact ⟨_, rfl⟩

theorem shownRound_templated : p.ShownRound templated (fallbackRound roundNumber templated) :=
  ⟨fun _ => ⟨rfl, rfl⟩, fun hnone => by cases hnone⟩

theorem shownCritique_templated :
    p.ShownCritique slotNumber roundNumber (fallbackCritique slotNumber roundNumber) :=
  ⟨fun _ => ⟨rfl, rfl⟩, fun hlive => by cases hlive⟩

/-- What is read of a reply is shown in both shapes when it is no machine output. -/
theorem replyNeverFails_of_read (htext : p.isVisible ((live.map p.strip).getD []) = true)
    (hread : p.readModeratorOutput decode ((live.map p.strip).getD []) = .ok (prose, stance))
    (hplain : p.isVisible prose = true → p.looksLikeMachineOutput prose = false) :
    p.ReplyNeverFails decode slotNumber roundNumber templated live := by
  obtain ⟨convergence, hcritique⟩ :=
    readCritique_read slotNumber roundNumber htext hread
  refine ⟨⟨_, moderatorRoundText_read htext hread, ?_⟩, _, convergence, hcritique, ?_⟩
  · cases hprose : p.isVisible prose with
    | false => exact shownRound_templated
    | true => exact ⟨fun hsome => (nomatch hsome), fun _ => hplain hprose⟩
  · cases hprose : p.isVisible prose with
    | false => exact shownCritique_templated
    | true => exact ⟨fun hfallback => (nomatch hfallback), fun _ => hplain hprose⟩

/-- A critic's reply that raises nothing is the critique that the consensus reads. -/
theorem readCritique_critiqueFromReply {critique : SlotCritique} {convergence : PeerConvergence}
    (hread : p.readCritique decode slotNumber roundNumber live = .ok (critique, convergence)) :
    (p.decoding decode).critiqueFromReply slotNumber roundNumber live = critique := by
  have hreading : ∀ text, p.readModeratorOutput decode text
      = .ok ((p.decoding decode).parseModeratorOutput text)
        ∨ p.readModeratorOutput decode text = .error "RecursionError" := by
    intro text
    by_cases hempty : p.strip text = []
    · refine .inl ?_
      have hsame : (p.decoding decode).strip text = [] := hempty
      rw [readModeratorOutput, if_pos hempty, parseModeratorOutput, hsame, hempty, if_pos rfl]
    · rw [readModeratorOutput, if_neg hempty]
      cases decode (p.strip text) with
      | recursionError => exact .inr rfl
      | valueError | value => exact .inl rfl
  cases htext : p.isVisible ((live.map p.strip).getD []) with
  | false =>
      rw [readCritique_blank htext] at hread
      cases hread
      have hsame : (p.decoding decode).isVisible ((live.map (p.decoding decode).strip).getD [])
          = false :=
        htext
      simp only [critiqueFromReply, hsame]
      rfl
  | true =>
      rcases hreading ((live.map p.strip).getD []) with hok | herror
      · obtain ⟨_, hcritique⟩ :=
          readCritique_read slotNumber roundNumber htext hok
        rw [hcritique] at hread
        cases hread
        have hsame : (p.decoding decode).isVisible ((live.map (p.decoding decode).strip).getD [])
            = true :=
          htext
        simp only [critiqueFromReply, hsame, if_true]
        rfl
      · simp only [readCritique, htext, if_true, herror] at hread
        cases hread

/-- A decoder out of stack on the stripped reply fails the round. -/
theorem not_replyNeverFails_of_recursion (htext : p.isVisible ((live.map p.strip).getD []) = true)
    (hdecode : decode ((live.map p.strip).getD []) = .recursionError) :
    ¬ p.ReplyNeverFails decode slotNumber roundNumber templated live := by
  have hstrip : p.strip ((live.map p.strip).getD []) = (live.map p.strip).getD [] := by
    cases live with
    | none => rfl
    | some raw => exact p.strip_strip raw
  have hread : p.readModeratorOutput decode ((live.map p.strip).getD [])
      = .error "RecursionError" :=
    readModeratorOutput_recursion (by rw [hstrip]; exact ne_nil_of_isVisible htext)
      (by rwa [hstrip])
  rintro ⟨⟨out, hout, -⟩, -⟩
  rw [moderatorRoundText_error htext hread] at hout
  cases hout

end

/-- Reading a reply never fails and never shows machine output, exactly when the decoder has stack
enough for it and the envelope's critique is no machine output. -/
theorem replyNeverFails_iff (p : PanelTables) (decode : Text → Decoded) (slotNumber roundNumber : ℕ)
    (templated : Text) (live : Option Text) :
    p.ReplyNeverFails decode slotNumber roundNumber templated live ↔
    p.ReadableReply decode live := by
  cases htext : p.isVisible ((live.map p.strip).getD []) with
  | false =>
      have hreadable : p.ReadableReply decode live := by
        cases live with
        | none => exact fun text hmem => by cases hmem
        | some raw =>
            rintro text htext' hvisible
            obtain rfl : p.strip raw = text := by simpa using htext'
            simp only [Option.map_some, Option.getD_some, hvisible] at htext
            cases htext
      refine iff_of_true ⟨⟨_, moderatorRoundText_blank htext, shownRound_templated⟩, _, _,
        readCritique_blank htext, shownCritique_templated⟩ hreadable
  | true =>
      cases live with
      | none => cases htext
      | some raw =>
          have hvisible : p.isVisible (p.strip raw) = true := htext
          have hne := ne_nil_of_isVisible hvisible
          have hstrip : p.strip (p.strip raw) = p.strip raw := p.strip_strip raw
          have hiff : p.ReadableReply decode (some raw) ↔ decode (p.strip raw) ≠ .recursionError
              ∧ ¬ p.QuotesMachineOutput decode (p.strip raw) := by
            constructor
            · exact fun hreadable => hreadable _ rfl hvisible
            · rintro hboth text hmem -
              obtain rfl : p.strip raw = text := by simpa using hmem
              exact hboth
          rw [hiff]
          by_cases hdecode : decode (p.strip raw) = .recursionError
          · exact iff_of_false (not_replyNeverFails_of_recursion htext hdecode)
              fun hboth => hboth.1 hdecode
          · obtain ⟨prose, stance, hread, hmachine, hhidden⟩ :=
              readModeratorOutput_ok hstrip hne hdecode
            constructor
            · rintro ⟨⟨out, hout, hshown⟩, -⟩
              refine ⟨hdecode, fun hquote => ?_⟩
              have hprose : p.isVisible prose = true := by
                by_contra hfalse
                exact hhidden (by simpa using hfalse) hquote
              rw [moderatorRoundText_read htext hread, if_pos hprose] at hout
              cases hout
              have hplain : p.looksLikeMachineOutput prose = false := hshown.2 rfl
              rw [(hmachine hprose).mpr hquote] at hplain
              cases hplain
            · rintro ⟨-, hquote⟩
              refine replyNeverFails_of_read htext hread fun hprose => ?_
              by_contra htrue
              exact hquote ((hmachine hprose).mp (by simpa using htrue))

/-- A reply of 100,000 opening brackets. -/
def nestedReply : Text := List.replicate 100000 '['

theorem nestedReply_raises :
    ¬ asciiPanelTables.ReplyNeverFails (fun _ => .recursionError) 1 1 [] (some nestedReply) := by
  have hspace : asciiPanelTables.isspace '[' = false := rfl
  have hshown : asciiPanelTables.invisible '[' = false := rfl
  have hvisible : asciiPanelTables.isVisible nestedReply = true :=
    TextTables.isVisible_replicate hspace hshown (by norm_num)
  have hstrip : asciiPanelTables.strip nestedReply = nestedReply :=
    TextTables.strip_replicate hspace _
  have htext : ((some nestedReply).map asciiPanelTables.strip).getD [] = nestedReply := by
    rw [Option.map_some, Option.getD_some, hstrip]
  exact not_replyNeverFails_of_recursion (by rw [htext, hvisible]) rfl

end PanelTables

end Quorum
