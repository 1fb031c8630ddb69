import Quorum.ConsensusStrength
import Quorum.ProviderExtract
import Quorum.RunPipeline
import Quorum.SynthesisSections

/-! The evidence blocks of the debate's and the synthesis' user prompts (`debate`, `synthesis`): one
line for each row the builder appends, with untrusted values inlined. -/

namespace Quorum

/-- Every character a prompt reader may treat as a line break. -/
def lineBreakingChars : Text :=
  ['\n', '\r', '\x0b', '\x0c', '\x1c', '\x1d', '\x1e', '\u0085', '\u2028', '\u2029']

def maxSourceTitleLen : ℕ := 300

def maxSourceUrlLen : ℕ := 500

def maxSourcesPerAnswer : ℕ := 3

def debateAnswerExcerptMaxChars : ℕ := 8000

def synthesisAnswerExcerptMaxChars : ℕ := 8000

/-- What the prompts read of a slot's answer. -/
structure PromptAnswer where
  slotNumber : ℕ
  modelId : Text
  displayName : Text
  answerText : Text
  status : InitialAnswerStatus
  sources : List SourceReference

/-- What a critic now believes of its own answer. -/
structure RevisedPosition where
  criticSlotNumber : ℕ
  critiqueMode : DebateMode
  revisedAnswer : Text

structure PromptRound where
  roundNumber : ℕ
  critiqueText : Text
  slotCritiques : List RevisedPosition

def PromptAnswer.label (answer : PromptAnswer) : Text :=
  if answer.displayName = [] then answer.modelId else answer.displayName

def InitialAnswerStatus.value : InitialAnswerStatus → Text
  | .completed => "completed".toList
  | .failed => "failed".toList

def joinLines (lines : List Text) : Text :=
  ['\n'].intercalate lines

/-- `str.replace` of one character by a space. -/
def replaceBySpace (breaking : Char) (text : Text) : Text :=
  text.map fun ch => if ch = breaking then ' ' else ch

def flattenForPrompt (value : Text) (maxChars : ℕ) : Text :=
  (lineBreakingChars.foldl (fun flattened ch => replaceBySpace ch flattened) value).take maxChars

def sourcesStr (sources : List SourceReference) : Text :=
  ", ".toList.intercalate ((sources.take maxSourcesPerAnswer).map fun source =>
    flattenForPrompt source.title maxSourceTitleLen ++ " (".toList
      ++ flattenForPrompt source.url maxSourceUrlLen ++ ")".toList)

def answersHeading (word : String) (maxChars : ℕ) : Text :=
  (word ++ " model answers (model name, status, first " ++ toString maxChars ++ " chars):").toList

/-- The context of a follow-up, as `_check_context` admits it. -/
abbrev FollowUpContext := Option (List (String × Option Text))

def FollowUpContext.priorSynthesis (context : FollowUpContext) : Text :=
  (((context.getD []).lookup "prior_synthesis").join).getD []

namespace PanelTables

variable (p : PanelTables)

/-! ### The debate's prompt -/

def debateAnswerLines (answer : PromptAnswer) : List Text :=
  [("- Slot " ++ toString answer.slotNumber ++ " — ").toList ++ answer.label ++ " (".toList
      ++ answer.status.value ++ "): ".toList
      ++ (p.oneLine answer.answerText).take debateAnswerExcerptMaxChars,
    "    sources: ".toList
      ++ if sourcesStr answer.sources = [] then "none".toList else sourcesStr answer.sources]

/-- The rows of the debate's evidence block; round one has no prior round. -/
def debateLines (word : String) (queryText : Text) (answers : List PromptAnswer)
    (priorRound : Option Text) : List Text :=
  ["User query:".toList, p.oneLine queryText, [], answersHeading word debateAnswerExcerptMaxChars]
    ++ answers.flatMap p.debateAnswerLines
    ++ match priorRound with
        | some critique => [[], "Round 1 critique:".toList, critique]
        | none => []

def debateDirectives (word : String) (priorRound : Option Text) : List Text :=
  ("The user's question and the " ++ word.toLower ++ " model answers are in the evidence "
      ++ "block below. Do NOT repeat the question verbatim in your response.").toList
    :: if priorRound.isSome then
        ["The block also carries the round 1 critique, for context. Do NOT repeat it.".toList]
      else []

def debateUserPrompt (u : UnicodeData) (queryText : Text) (answers : List PromptAnswer)
    (priorRound : Option Text) (panelSize : ℕ) : Except String Text := do
  let word ← panelSizeWord panelSize
  return joinLines (debateDirectives word priorRound) ++ "\n\n".toList
    ++ u.fence (joinLines (p.debateLines word queryText answers priorRound))

/-! ### The synthesis' prompt -/

/-- What a follow-up's previous answer adds: one directive, and the lines that open the block. -/
def priorSynthesisPromptParts (context : FollowUpContext) : Text × List Text :=
  let priorSynthesis := p.strip (flattenForPrompt context.priorSynthesis finalSynthesisMaxChars)
  if priorSynthesis = [] then ([], [])
  else
    ("The evidence block opens with the synthesis from the user's previous ".toList
      ++ "question. Treat it as prior context for this follow-up, not as an ".toList
      ++ "answer to restate.".toList,
      ["Synthesis of the user's previous question:".toList, priorSynthesis, []])

/-- The panel's revised positions; a later round's supersedes an earlier one's. -/
def revisedAnswers (rounds : List PromptRound) : Dict ℕ Text :=
  ((rounds.mergeSort fun earlier later => earlier.roundNumber ≤ later.roundNumber).flatMap
      PromptRound.slotCritiques).foldl
    (fun revised critique =>
      if critique.critiqueMode = .live ∧ p.isVisible critique.revisedAnswer then
        revised.set critique.criticSlotNumber critique.revisedAnswer
      else revised)
    Dict.empty

/-- The revised answer when the panel produced one, else the original. -/
def sourceText (revised : Dict ℕ Text) (answer : PromptAnswer) : Text :=
  let revision := (revised.get? answer.slotNumber).getD []
  if p.isVisible revision then revision else answer.answerText

/-- `.strip().replace("\n", " ")[:max_chars]`. -/
def promptExcerpt (text : Text) (maxChars : ℕ) : Text :=
  (replaceBySpace '\n' (p.strip text)).take maxChars

def synthesisAnswerLines (revised : Dict ℕ Text) (answer : PromptAnswer) : List Text :=
  ("- ".toList ++ answer.label ++ " (".toList ++ answer.status.value ++ "): ".toList
      ++ p.promptExcerpt (p.sourceText revised answer) synthesisAnswerExcerptMaxChars)
    :: if sourcesStr answer.sources = [] then []
      else ["    sources: ".toList ++ sourcesStr answer.sources]

def revisedNote : List Text :=
  [[], "Note: the answers above are the models' REVISED positions, ".toList
    ++ "stated after each read the others' answers and sources. ".toList
    ++ "Where a model did not revise, its original answer is shown.".toList]

def roundLine (round : PromptRound) : Text :=
  ("- round " ++ toString round.roundNumber ++ ": ").toList
    ++ p.promptExcerpt round.critiqueText synthesisDebateExcerptMaxChars

/-- The rows after those of the previous answer. -/
def panelLines (word : String) (answers : List PromptAnswer)
    (rounds : List PromptRound) : List Text :=
  answersHeading word synthesisAnswerExcerptMaxChars
    :: answers.flatMap (p.synthesisAnswerLines (p.revisedAnswers rounds))
    ++ (if (p.revisedAnswers rounds).items = [] then [] else revisedNote)
    ++ if rounds = [] then []
      else [] :: "Debate rounds (round 1 then round 2 critique):".toList :: rounds.map p.roundLine

/-- The rows of the synthesis' evidence block. -/
def synthesisLines (word : String) (answers : List PromptAnswer) (rounds : List PromptRound)
    (context : FollowUpContext) : List Text :=
  (p.priorSynthesisPromptParts context).2 ++ p.panelLines word answers rounds

/-- The directives, with the panel's own figures; the coverage ratio is in hundredths. -/
def synthesisDirectives (failedCount coverageHundredths : ℕ) (coverageTargetMet : Bool)
    (priorDirective : Text) : List Text :=
  ["Do NOT repeat the user's question verbatim in your response.".toList,
    ("Source coverage: " ++ toString coverageHundredths
      ++ "% of the answers carried at least one primary source.").toList,
    ("Source-coverage target: " ++ if coverageTargetMet then "MET." else "NOT MET.").toList,
    ("Failed model count: " ++ toString failedCount ++ ".").toList]
    ++ if priorDirective = [] then [] else [priorDirective]

def synthesisUserPrompt (u : UnicodeData) (answers : List PromptAnswer) (rounds : List PromptRound)
    (failedCount coverageHundredths : ℕ) (coverageTargetMet : Bool) (context : FollowUpContext)
    (panelSize : ℕ) : Except String Text := do
  let word ← panelSizeWord panelSize
  return joinLines (synthesisDirectives failedCount coverageHundredths coverageTargetMet
      (p.priorSynthesisPromptParts context).1) ++ "\n\n".toList
    ++ u.fence (joinLines (p.synthesisLines word answers rounds context))

end PanelTables

end Quorum
