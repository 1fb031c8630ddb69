import Mathlib.Data.NNRat.Floor
import Quorum.CostTypes

/-! The shared per-call token model of the cost estimator. A run is priced stage by stage, each call
at `price per 1K tokens × tokens` for its prompt and its output: one answer per slot, two debate
rounds, the synthesis sections, and the judge when one is configured. The displayed estimate prices
the typical call of each stage, and the bound prices the caps. Token counts and prices are never
negative, so they are nonnegative rationals; a decimal's products, sums and divisions by 4 and 1000
are exact there. -/

namespace Quorum

/-- The settings that the estimator reads. -/
structure CostSettings where
  costSystemPromptTokens : ℕ := 350
  costWebSearchContextTokens : ℕ := 2000
  costWebSearchRequestFeeUsd : ℚ≥0 := 7 / 1000
  costInitialOutputTokens : ℕ := 700
  costOutputTokensPerQueryToken : ℚ≥0 := 1 / 2
  costDebateOutputTokens : ℕ := 2200
  costDebateOutputTokensCap : ℕ := 4000
  costJudgeInputTokens : ℕ := 7300
  costJudgeOutputTokens : ℕ := 150
  costJudgeInputTokensWithPages : ℕ := 15000
  costSynthesisOutputTokens : ℕ := 3000
  costSynthesisSections : ℕ := 5
  initialAnswerMaxTokens : ℕ := 2000
  quorumEvalJudgeMaxTokens : ℕ := 1024
  debateModelId : String := "anthropic/claude-haiku-4.5"
  synthesisModelId : String := "openai/gpt-5-mini"
  quorumEvalJudgeModelId : String := ""
  judgeEnabled : Bool := false
  quorumSourceFetchEnabled : Bool := false
  peerCritiqueEnabled : Bool := false

/-- A judge call can happen: a key and a pinned model are both set. -/
def CostSettings.judgeConfigured (settings : CostSettings) : Bool :=
  settings.judgeEnabled && settings.quorumEvalJudgeModelId ≠ ""

def CostSettings.judgeReadsPages (settings : CostSettings) : Bool :=
  settings.judgeConfigured && settings.quorumSourceFetchEnabled

/-- The lengths, in characters, of the prompts that other modules write: the longest system prompt
of a peer critic, and the two system prompts of the judge. -/
structure PromptSizes where
  debateSystemPromptMaxChars : ℕ
  judgeSystemPrompt : ℕ
  judgePagesSystemPrompt : ℕ

/-- Prices per 1K tokens, input and output. -/
structure Price where
  input : ℚ≥0
  output : ℚ≥0

/-- What the estimator prices with: the settings, the prompt sizes, and the catalog's price index
and short names. -/
structure Pricing where
  settings : CostSettings
  sizes : PromptSizes
  priceIndex : String → Option Price
  lookupShortName : String → Option String

def defaultPricePer1k : Price := ⟨1 / 1000, 5 / 1000⟩

def Pricing.price (pricing : Pricing) (modelId : String) : Price :=
  (pricing.priceIndex modelId).getD defaultPricePer1k

/-- The price of one call. -/
def Pricing.cost (pricing : Pricing) (modelId : String) (promptTokens outputTokens : ℚ≥0) : ℚ≥0 :=
  (pricing.price modelId).input * promptTokens / 1000 +
    (pricing.price modelId).output * outputTokens / 1000

def charsPerToken : ℚ≥0 := 4

/-- The lengths, in characters, of what the context of a follow-up adds: its two texts, the addition
to a system message, and the addition to the user message of a synthesis call. -/
structure ContextSizes where
  texts : ℕ
  systemExtra : ℕ
  userPromptExtra : ℕ

/-- The extra input tokens of one call of each stage. -/
structure FollowUpTokens where
  answer : ℚ≥0 := 0
  debate : ℚ≥0 := 0
  synthesis : ℚ≥0 := 0

def followUpContextTokens : Option ContextSizes → FollowUpTokens
  | none => {}
  | some context =>
      { answer := context.texts / charsPerToken
        debate := context.systemExtra / charsPerToken
        synthesis := (context.systemExtra + context.userPromptExtra) / charsPerToken }

def boundWebSearchContextTokens : ℕ := 2000

/-! ### The judge -/

def judgeMaxSourceLines : ℕ := 32

def judgeMaxSourceTitleLen : ℕ := 300

def judgeMaxSourceUrlLen : ℕ := 300

def judgeMaxSourcePages : ℕ := 8

def judgeMaxSourcePageChars : ℕ := 4000

def synthesisSectionMaxTokens : ℕ := 3000

def judgeEvidenceSections : ℕ := 5

def judgeSourceLineOverheadChars : ℕ := 10

def judgePageItemOverheadChars : ℕ := 12

def judgePagesSectionOverheadChars : ℕ := 40

/-- The line `PAGE [32]: same page as [32]` and its newline. -/
def samePageLineChars : ℕ := 29

def judgeSourceTokens : ℚ≥0 :=
  judgeMaxSourceLines * (judgeMaxSourceTitleLen + judgeMaxSourceUrlLen +
    judgeSourceLineOverheadChars) /
    charsPerToken

/-- Page text is priced at one token per character. -/
def judgePageTokens (priceJudgePages : Bool) : ℚ≥0 :=
  if priceJudgePages then
    judgeMaxSourcePages * (judgeMaxSourcePageChars + judgePageItemOverheadChars) +
      judgePagesSectionOverheadChars +
      ((judgeMaxSourceLines - judgeMaxSourcePages : ℕ) : ℚ≥0) * samePageLineChars
  else 0

section

variable (pricing : Pricing)

/-- The prompt cap of a judge call. -/
def judgeInputTokens (slotCount : ℕ) (queryTokens : ℚ≥0) (priceJudgePages : Bool) : ℚ≥0 :=
  let judgeSystemPrompt :=
    if priceJudgePages then pricing.sizes.judgePagesSystemPrompt
    else pricing.sizes.judgeSystemPrompt
  pricing.settings.initialAnswerMaxTokens * slotCount +
    judgeEvidenceSections * synthesisSectionMaxTokens +
    judgeSystemPrompt / charsPerToken + judgeSourceTokens +
      judgePageTokens priceJudgePages + queryTokens

/-- The judge at its caps, or at its typical figures, each clamped to its cap. -/
def judgeCost (slotCount : ℕ) (queryTokens : ℚ≥0) (priceJudgePages judgeTypical : Bool) : ℚ≥0 :=
  let settings := pricing.settings
  let inputCap := judgeInputTokens pricing slotCount queryTokens priceJudgePages
  let outputCap : ℚ≥0 := settings.quorumEvalJudgeMaxTokens
  let typicalInput : ℕ :=
    if priceJudgePages then settings.costJudgeInputTokensWithPages
    else settings.costJudgeInputTokens
  if judgeTypical then
    pricing.cost settings.quorumEvalJudgeModelId (min (typicalInput + queryTokens) inputCap)
      (min settings.costJudgeOutputTokens outputCap)
  else pricing.cost settings.quorumEvalJudgeModelId inputCap outputCap

/-! ### The components -/

/-- The arguments of the token model beside the query and the slots. -/
structure ComponentArgs where
  initOutputTokens : ℚ≥0
  synthesisSections : ℚ≥0
  debateOutputOverride : Option ℚ≥0 := none
  searchContextOverride : Option ℚ≥0 := none
  followUp : FollowUpTokens
  priceRoundTwoPriorCritique : Bool := false
  priceJudge : Bool
  priceJudgePages : Bool
  judgeTypical : Bool := false
  quick : Bool

structure CostParts where
  initialPerModel : List ℚ≥0
  initialTotal : ℚ≥0
  debateRoundCost : ℚ≥0
  synthesisCost : ℚ≥0
  judgeCost : ℚ≥0
  rawTotal : ℚ≥0

def queryTokens (queryChars : ℕ) : ℚ≥0 := queryChars / charsPerToken

def searchTokens (args : ComponentArgs) : ℚ≥0 :=
  args.searchContextOverride.getD pricing.settings.costWebSearchContextTokens

def debateOutputTokens (args : ComponentArgs) : ℚ≥0 :=
  args.debateOutputOverride.getD pricing.settings.costDebateOutputTokens

def slotPromptTokens (queryChars : ℕ) (args : ComponentArgs) (slot : ModelSlot) : ℚ≥0 :=
  pricing.settings.costSystemPromptTokens + (if slot.search then searchTokens pricing args else 0) +
    queryTokens queryChars + args.followUp.answer

def searchFee (slot : ModelSlot) : ℚ≥0 :=
  if slot.search then pricing.settings.costWebSearchRequestFeeUsd else 0

/-- The initial answer of a slot: its call, and the search fee when it searches. -/
def slotCost (queryChars : ℕ) (args : ComponentArgs) (slot : ModelSlot) : ℚ≥0 :=
  pricing.cost slot.modelId (slotPromptTokens pricing queryChars args slot) args.initOutputTokens +
    searchFee pricing slot

def upstreamAnswersTokens (modelSlots : List ModelSlot) (args : ComponentArgs) : ℚ≥0 :=
  modelSlots.length * args.initOutputTokens

def debateSystemTokens : ℚ≥0 :=
  if pricing.settings.peerCritiqueEnabled then
    pricing.sizes.debateSystemPromptMaxChars / charsPerToken
  else pricing.settings.costSystemPromptTokens

def debatePromptTokens (queryChars : ℕ) (modelSlots : List ModelSlot)
    (args : ComponentArgs) : ℚ≥0 :=
  debateSystemTokens pricing + queryTokens queryChars + upstreamAnswersTokens modelSlots args +
    args.followUp.debate

/-- One call of the moderator, or with peer critique the dearer of that and one call of every
slot. -/
def criticsCost (modelSlots : List ModelSlot) (promptTokens outputTokens : ℚ≥0) : ℚ≥0 :=
  let moderatorCost := pricing.cost pricing.settings.debateModelId promptTokens outputTokens
  if pricing.settings.peerCritiqueEnabled then
    max (modelSlots.map fun slot =>
      pricing.cost slot.modelId promptTokens outputTokens).sum moderatorCost
  else moderatorCost

def synthesisPromptTokens (queryChars : ℕ) (modelSlots : List ModelSlot)
    (args : ComponentArgs) : ℚ≥0 :=
  pricing.settings.costSystemPromptTokens + queryTokens queryChars +
    upstreamAnswersTokens modelSlots args +
    args.followUp.synthesis + 2 * debateOutputTokens pricing args

/-- The stages before the quick mode drops the debate and the synthesis. -/
def costParts (queryChars : ℕ) (modelSlots : List ModelSlot) (args : ComponentArgs) : CostParts :=
  let initialPerModel := modelSlots.map (slotCost pricing queryChars args)
  let debateOutput := debateOutputTokens pricing args
  let debateRoundCost := if args.quick then 0 else
    criticsCost pricing modelSlots
      (debatePromptTokens pricing queryChars modelSlots args) debateOutput
  let synthesisCost := if args.quick then 0 else args.synthesisSections * pricing.cost
    pricing.settings.synthesisModelId (synthesisPromptTokens pricing queryChars modelSlots args)
    pricing.settings.costSynthesisOutputTokens
  let priorCritiqueInputCost := if args.quick ∨ ¬args.priceRoundTwoPriorCritique then 0 else
    criticsCost pricing modelSlots debateOutput 0
  let judge := if args.priceJudge then
    judgeCost pricing modelSlots.length (queryTokens queryChars) args.priceJudgePages
      args.judgeTypical
    else 0
  { initialPerModel := initialPerModel
    initialTotal := initialPerModel.sum
    debateRoundCost := debateRoundCost
    synthesisCost := synthesisCost
    judgeCost := judge
    rawTotal := initialPerModel.sum + 2 * debateRoundCost + priorCritiqueInputCost +
      synthesisCost + judge }

/-- The panel sizes that are priced: one slot for a quick answer, two to four for a panel. -/
def admitted (modelSlots : List ModelSlot) (quick : Bool) : Prop :=
  if quick then modelSlots.length = 1
  else minSlotCount ≤ modelSlots.length ∧ modelSlots.length ≤ maxSlotCount

instance (modelSlots : List ModelSlot) (quick : Bool) : Decidable (admitted modelSlots quick) := by
  unfold admitted
  infer_instance

def costComponents (queryChars : ℕ) (modelSlots : List ModelSlot) (args : ComponentArgs) :
    Except String CostParts :=
  if modelSlots = [] then .error "model_slots must not be empty"
  else if admitted modelSlots args.quick then .ok (costParts pricing queryChars modelSlots args)
  else if args.quick then .error "a quick answer prices exactly one slot"
  else .error "model_slots must contain between 2 and 4 slots"

theorem costComponents_admitted {queryChars : ℕ} {modelSlots : List ModelSlot}
    {args : ComponentArgs} (h : admitted modelSlots args.quick) :
    costComponents pricing queryChars modelSlots args =
      .ok (costParts pricing queryChars modelSlots args) := by
  have hne : modelSlots ≠ [] := by
    rintro rfl
    unfold admitted at h
    split_ifs at h with hquick
    · exact absurd h (by decide)
  rw [costComponents, if_neg hne, if_pos h]

/-! ### The two uses -/

/-- The typical output of an initial answer grows with the query up to its cap. -/
def typicalInitOutputTokens (queryChars : ℕ) : ℚ≥0 :=
  min (pricing.settings.costInitialOutputTokens +
    pricing.settings.costOutputTokensPerQueryToken * queryTokens queryChars)
    pricing.settings.initialAnswerMaxTokens

/-- The displayed estimate: every call at its typical figures. -/
def estimateArgs (queryChars : ℕ) (context : Option ContextSizes) (mode : Mode) :
    ComponentArgs where
  initOutputTokens := typicalInitOutputTokens pricing queryChars
  synthesisSections := pricing.settings.costSynthesisSections
  followUp := followUpContextTokens context
  priceJudge := pricing.settings.judgeConfigured
  priceJudgePages := mode ≠ .quick && pricing.settings.judgeReadsPages
  judgeTypical := true
  quick := mode = .quick

/-- The fail-safe bound: every call at its caps, and the first critique read again in round two. -/
def boundArgs (context : Option ContextSizes) (mode : Mode) : ComponentArgs where
  initOutputTokens := pricing.settings.initialAnswerMaxTokens
  synthesisSections := pricing.settings.costSynthesisSections
  debateOutputOverride := some pricing.settings.costDebateOutputTokensCap
  searchContextOverride := some boundWebSearchContextTokens
  followUp := followUpContextTokens context
  priceRoundTwoPriorCritique := true
  priceJudge := pricing.settings.judgeConfigured
  priceJudgePages := mode ≠ .quick && pricing.settings.judgeReadsPages
  quick := mode = .quick

end

end Quorum
