import Quorum.BaseDict
import Quorum.DebatePeer

/-! What the synthesis claims of the panel (`synthesis_consensus`): whether it agreed, and how
strong its consensus is. -/

namespace Quorum

/-- A debate round as it is stored. -/
structure DebateRound where
  roundNumber : ℕ
  critiqueText : Text
  debateMode : DebateMode
  panelStance : Option (List SlotPosition)
  critiqueShape : CritiqueShape
  slotCritiques : List SlotCritique
  eligibleCriticCount : ℕ
deriving DecidableEq

/-- A debate of the peer shape: for each round its eligible critics and what became of them. A
second round may be skipped. -/
structure PeerDebate where
  roundOne : List (PanelAnswer × CriticOutcome)
  roundTwo : Option (List (PanelAnswer × CriticOutcome))
deriving DecidableEq

inductive PanelAgreement
  | agreed
  | split
  | undetermined
deriving DecidableEq

inductive ConsensusStrength
  | strong
  | weak
  | divided
deriving DecidableEq

def synthesisDebateExcerptMaxChars : ℕ := 16000

def convergeKeywords : List Text :=
  ["converge", "converged", "reach agreement", "reached agreement", "agreement reached",
    "broadly agree", "broadly agreeing"].map String.toList

def negationTokens : List Text :=
  ["not ", "no ", "didn't ", "doesn't ", "did not ", "does not ", "cannot ", "can't "].map
    String.toList

/-- The polar pairs, each in the order the code sorts it. -/
def polarPairs : List (Text × Text) :=
  [("no", "yes"), ("safe", "unsafe"), ("avoid", "recommend"), ("false", "true"),
    ("decrease", "increase"), ("oppose", "support"), ("affordable", "expensive")].map
    fun pair => (pair.1.toList, pair.2.toList)

/-- How many answers are a strict majority of a panel. -/
def requiredCluster (panelSize : ℕ) : ℕ := panelSize / 2 + 1

/-- May this round's stance be read as evidence? A peer round's stance is a majority of live critics
already; a moderator's needs a live round. -/
def stanceIsAdmissible (output : DebateRound) : Bool :=
  match output.panelStance with
  | none => false
  | some _ => output.critiqueShape = .peer || output.debateMode = .live

/-- The round with the greater number; the first of equals. -/
def laterRound (latest : Option DebateRound) (output : DebateRound) : Option DebateRound :=
  match latest with
  | none => some output
  | some best => if best.roundNumber < output.roundNumber then some output else some best

/-- The admissible round of the greatest number. -/
def latestAdmissible (outputs : List DebateRound) : Option DebateRound :=
  (outputs.filter stanceIsAdmissible).foldl laterRound none

namespace PanelTables

variable (p : PanelTables)

/-- The runs of whitespace of a text collapsed to single spaces. -/
def oneLine (text : Text) : Text :=
  [' '].intercalate ((text.splitOnP p.isspace).filter (· ≠ []))

/-- The render-only digest of a round's critiques, within the excerpt bound. -/
def peerDigest (critiques : List SlotCritique) : Text :=
  let perCritic := synthesisDebateExcerptMaxChars / critiques.length
  ['\n'].intercalate <| critiques.map fun critique =>
    let label := ("Slot " ++ toString critique.criticSlotNumber ++ ": ").toList
    label ++ (p.oneLine critique.critiqueText).take (perCritic - label.length - 1)

/-- A round that the moderator path served from its template, as it does after a cancel. -/
def templatedRound (roundNumber : ℕ) (templated : Text) : DebateRound :=
  { roundNumber, critiqueText := templated, debateMode := .fallback, panelStance := none
    critiqueShape := .moderator, slotCritiques := [], eligibleCriticCount := 0 }

/-- One round of peer critique; the template's when no critic was asked. -/
def peerRound (roundNumber : ℕ) (templated : Text) (critics : List (PanelAnswer × CriticOutcome)) :
    Except String DebateRound :=
  match critics.filterMap (p.critiqueOf roundNumber) with
  | [] => .ok (templatedRound roundNumber templated)
  | critiques =>
      (p.derivePeerStance critiques critics.length).map fun stance =>
        { roundNumber, critiqueText := p.peerDigest critiques
          debateMode :=
            if critiques.all fun critique => critique.critiqueMode = .live then .live else .fallback
          panelStance := stance, critiqueShape := .peer, slotCritiques := critiques
          eligibleCriticCount := critics.length }

/-- The stored rounds of a peer debate. -/
def runDebateRounds (templated : ℕ → Text) (debate : PeerDebate) :
    Except String (List DebateRound) := do
  let roundOne ← p.peerRound 1 (templated 1) debate.roundOne
  match debate.roundTwo with
  | none => pure [roundOne]
  | some critics =>
      let roundTwo ← p.peerRound 2 (templated 2) critics
      pure [roundOne, roundTwo]

/-- May this answer be scored as evidence about what the panel thinks? -/
def countsAsEvidence (answer : PanelAnswer) : Bool :=
  answer.status = .completed && p.isVisible answer.answerText && answer.modelWasInvoked

/-- The slots whose text may be read as evidence. -/
def scoredSlotNumbers (answers : List PanelAnswer) : List ℕ :=
  ((answers.filter p.countsAsEvidence).map PanelAnswer.slotNumber).dedup

/-- The slots of a stance with their labels. -/
def positionLabels (positions : List SlotPosition) : List (ℕ × Text) :=
  positions.map fun position => (position.slot, p.label position.group)

/-- A stance's label of each scored slot, the last one where a slot has several: nothing when a
label is blank or a scored slot is missing. -/
def stanceEvidence (scored : List ℕ) (positions : List SlotPosition) : Option (List (ℕ × Text)) :=
  let mapping := Dict.ofList (p.positionLabels positions)
  if (p.positionLabels positions).any fun entry => entry.2 = [] then none
  else if scored.all fun slot => slot ∈ mapping.keys then
    some (mapping.items.filter fun entry => entry.1 ∈ scored)
  else none

/-- Slot number to label, or nothing for no evidence. -/
def usableStance (answers : List PanelAnswer) (outputs : List DebateRound) :
    Option (List (ℕ × Text)) :=
  if p.scoredSlotNumbers answers = [] then none
  else
    (latestAdmissible outputs).bind fun latest =>
      latest.panelStance.bind (p.stanceEvidence (p.scoredSlotNumbers answers))

/-- Did the panel agree, and do we know? -/
def panelAgreement (answers : List PanelAnswer) (outputs : List DebateRound) : PanelAgreement :=
  match p.usableStance answers outputs with
  | none => .undetermined
  | some stance =>
      if stance.length < 2 then .undetermined
      else if (stance.map Prod.snd).dedup.length = 1 then .agreed
      else .split

/-- The lower-cased words of letters and digits, grouped by four. -/
def fourGrams (text : Text) : List Text :=
  let isWordChar : Char → Bool := fun ch => ch.isDigit || ('a' ≤ ch && ch ≤ 'z')
  let words := ((p.lower text).splitOnP fun ch => !isWordChar ch).filter (· ≠ [])
  if words.length < 4 then words.dedup
  else
    ((List.range (words.length - 3)).map fun start =>
      [' '].intercalate ((words.drop start).take 4)).dedup

def excerpt (text : Text) : Text :=
  (text.map fun ch => if ch = '\n' then ' ' else ch).take 200

/-- Two sets of 4-grams share at least a tenth of their union. -/
def gramsOverlap (current other : List Text) : Bool :=
  let shared := (current.filter (· ∈ other)).length
  let union := current.length + other.length - shared
  0 < union && union ≤ 10 * shared

/-- Three of the texts overlap each other on their openings. -/
def hasStrongOverlap (completedTexts : List Text) : Bool :=
  ((completedTexts.map fun text => p.fourGrams (excerpt text)).sublistsLen 3).any fun trio =>
    trio.Pairwise fun current other => gramsOverlap current other

/-- A keyword has a negation within the twenty characters before one of its places. -/
def keywordNegated (haystack keyword : Text) : Bool :=
  (finditer [keyword] haystack).any fun found =>
    let window := p.lower ((haystack.take found.1).drop (found.1 - 20))
    negationTokens.any fun token => token <:+: window

/-- Does one already lower-cased critique report convergence? -/
def textSignalsConvergence (critique : Text) : Bool :=
  convergeKeywords.any fun keyword => keyword <:+: critique && !p.keywordNegated critique keyword

/-- How many live critics report convergence. -/
def convergingCritics (critiques : List SlotCritique) : ℕ :=
  critiques.countP fun critique =>
    critique.critiqueMode = .live && p.textSignalsConvergence (p.lower critique.critiqueText)

/-- Did a strict majority of the eligible critics report convergence? -/
def peerRoundSignalsConvergence (output : DebateRound) : Bool :=
  0 < output.eligibleCriticCount
    && majorityOf output.eligibleCriticCount ≤ p.convergingCritics output.slotCritiques

def debateSignalsConvergence (outputs : List DebateRound) : Bool :=
  outputs.any fun output =>
    if output.critiqueShape = .peer then p.peerRoundSignalsConvergence output
    else output.debateMode = .live && p.textSignalsConvergence (p.lower output.critiqueText)

/-- The word stands in the text between two word boundaries. -/
def hasWord (word text : Text) : Bool :=
  (List.range (text.length + 1)).any fun start =>
    word.isPrefixOf (text.drop start)
      && !((text.take start).getLast?.any p.isWord)
      && !((text.drop (start + word.length)).head?.any p.isWord)

/-- Some text has one word of a polar pair without the other, and another text the other way. -/
def hasPolarDisagreement (completedTexts : List Text) : Bool :=
  let lowered := completedTexts.map p.lower
  2 ≤ completedTexts.length && polarPairs.any fun (a, b) =>
    (lowered.any fun text => p.hasWord a text && !p.hasWord b text)
      && lowered.any fun text => p.hasWord b text && !p.hasWord a text

/-- The strength of a stance over the scored slots. -/
def stanceStrength (stance : List (ℕ × Text)) : ConsensusStrength :=
  let labels := stance.map Prod.snd
  if stance.length = 1 then .weak
  else if labels.dedup.length = 1
      || labels.any fun label => requiredCluster stance.length ≤ labels.count label then .strong
  else .divided

/-- What the answers' vocabulary and the critics' own words say without a stance. -/
def vocabularyStrength (completedTexts : List Text) (outputs : List DebateRound) :
    ConsensusStrength :=
  if p.hasStrongOverlap completedTexts then .strong
  else if p.debateSignalsConvergence outputs then .strong
  else if p.hasPolarDisagreement completedTexts then .divided
  else .weak

def computeConsensusStrength (answers : List PanelAnswer) (outputs : List DebateRound) :
    ConsensusStrength :=
  let completed := answers.filter p.countsAsEvidence
  if completed = [] then .divided
  else if completed.length = 1 then .weak
  else
    match p.usableStance answers outputs with
    | some stance => stanceStrength stance
    | none =>
        p.vocabularyStrength (completed.map fun answer =>
          p.stripOwnCaveat answer.answerText) outputs

end PanelTables

end Quorum
