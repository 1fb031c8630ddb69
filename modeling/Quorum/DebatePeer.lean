import Quorum.BaseJson
import Quorum.CostTypes
import Quorum.RunTypes
import Quorum.SynthesisLength

/-! One round of peer critique (`debate`): what a critic's reply is read as, and the round's stance
as the strict majority of the eligible critics. -/

namespace Quorum

/-- The search paths an answer or a source can have come by. -/
inductive ProviderPath
  | localSimulation
  | openrouterSearch
  | fallbackSearch
  | webSearch
deriving DecidableEq

def notInvokedPaths : List ProviderPath := [.localSimulation, .fallbackSearch, .webSearch]

/-- What the debate and the consensus read of a slot's answer. -/
structure PanelAnswer where
  slotNumber : ℕ
  answerText : Text
  status : InitialAnswerStatus
  providerPath : ProviderPath
deriving DecidableEq

def PanelAnswer.modelWasInvoked (answer : PanelAnswer) : Bool :=
  answer.providerPath ∉ notInvokedPaths

inductive DebateMode
  | live
  | fallback
deriving DecidableEq

/-- One model's position as a critic read it; only equality of two groups carries meaning. -/
structure SlotPosition where
  slot : ℕ
  group : Text
  range : 1 ≤ slot ∧ slot ≤ maxSlotCount

instance : DecidableEq SlotPosition := fun left right =>
  decidable_of_iff (left.slot = right.slot ∧ left.group = right.group) (by
    obtain ⟨slot, group, _⟩ := left
    obtain ⟨slot', group', _⟩ := right
    exact (SlotPosition.mk.injEq ..).to_iff.symm)

/-- A reading of the panel that names no slot twice. -/
structure PanelStance where
  positions : List SlotPosition
  distinct : (positions.map SlotPosition.slot).Nodup
deriving DecidableEq

/-- One answer model's critique of the other slots, inside one round. -/
structure SlotCritique where
  criticSlotNumber : ℕ
  critiqueText : Text
  critiqueMode : DebateMode
  stance : Option PanelStance
deriving DecidableEq

/-- What the reading of replies and answers takes from outside: `str.casefold`, `json.loads`,
pydantic's check of a slot number and its strip of strings, the regular expressions' `\w` and the
caveat's. -/
structure PanelTables extends TextTables where
  casefold : Text → Text
  loads : Text → Option Json
  fieldStrip : Text → Text
  validatedSlot : Json → Option ℕ
  isWord : Char → Bool
  stripOwnCaveat : Text → Text

/-- What became of one eligible critic: a cancel came first, or its call was made. -/
inductive CriticOutcome
  | undispatched
  | dispatched (answerText : Option Text)
deriving DecidableEq

namespace PanelTables

variable (p : PanelTables)

/-- The label two positions are compared by: case and surrounding space are no difference. -/
def label (group : Text) : Text :=
  p.casefold (p.strip group)

/-- A `SlotPosition` as pydantic builds it: the group is stripped and has 1 to 64 characters. -/
def slotPosition (slot : ℕ) (group : Text) : Option SlotPosition :=
  if h : (1 ≤ slot ∧ slot ≤ maxSlotCount) ∧ 1 ≤ (p.fieldStrip group).length
      ∧ (p.fieldStrip group).length ≤ 64 then
    some { slot := slot, group := p.fieldStrip group, range := h.1 }
  else none

/-- `SlotPosition.model_validate` of one entry. -/
def validatedPosition (entry : Json) : Option SlotPosition := do
  let slot ← (entry.get? "slot").bind p.validatedSlot
  let group ← (entry.get? "group").bind Json.str?
  p.slotPosition slot group

/-- The reply begins as a JSON body, once wrapper noise is stripped. -/
def beginsAsJson (text : Text) : Bool :=
  let noise := text.dropWhile fun ch =>
    ch == '\ufeff' || p.isspace ch || ch == Char.ofNat 96 || ch == '~'
  let body :=
    if "json".toList.isPrefixOf noise || "JSON".toList.isPrefixOf noise then noise.drop 4 else noise
  match p.lstrip body with
  | ch :: _ => ch == '{' || ch == '['
  | [] => false

/-- The `positions` key with its opening bracket starts here. -/
def envelopeStarts (text : Text) : Bool :=
  match text with
  | quote :: rest =>
      (quote == '\'' || quote == '"') && "positions".toList.isPrefixOf rest
        && match rest.drop 9 with
          | closing :: rest =>
              (closing == '\'' || closing == '"')
                && match p.lstrip rest with
                  | ':' :: rest => ['['].isPrefixOf (p.lstrip rest)
                  | _ => false
          | [] => false
  | [] => false

/-- Is the text the JSON envelope that was asked for, however badly wrapped? -/
def looksLikeMachineOutput (text : Text) : Bool :=
  text.tails.any p.envelopeStarts || p.beginsAsJson text

/-- The stance an envelope's `positions` carry: every entry valid and no slot named twice. -/
def stanceOfPositions (positions : List Json) : Option PanelStance :=
  match positions.mapM p.validatedPosition with
  | some positions =>
      if h : (positions.map SlotPosition.slot).Nodup then some { positions, distinct := h } else none
  | none => none

/-- A moderator's or a critic's reply as prose critique and stance evidence. -/
def parseModeratorOutput (raw : Text) : Text × Option PanelStance :=
  let text := p.strip raw
  if text = [] then (text, none)
  else
    match p.loads text with
    | none => (if p.looksLikeMachineOutput text then [] else text, none)
    | some (.obj fields) =>
        let critique := (((Json.obj fields).get? "critique").bind Json.str?).getD []
        let positions := (((Json.obj fields).get? "positions").bind Json.arr?).getD []
        (p.strip critique, if positions = [] then none else p.stanceOfPositions positions)
    | some _ => ([], none)

def peerFallbackNotice (slotNumber roundNumber : ℕ) : Text :=
  ("Slot " ++ toString slotNumber ++ " did not return a usable critique for debate round "
    ++ toString roundNumber ++ ".").toList

/-- One critic's reply: live when something of it can be shown, else the template. -/
def critiqueFromReply (slotNumber roundNumber : ℕ) (live : Option Text) : SlotCritique :=
  let templated : SlotCritique :=
    { criticSlotNumber := slotNumber, critiqueText := peerFallbackNotice slotNumber roundNumber
      critiqueMode := .fallback, stance := none }
  let text := (live.map p.strip).getD []
  if p.isVisible text then
    let (prose, stance) := p.parseModeratorOutput text
    if p.isVisible prose then
      { criticSlotNumber := slotNumber, critiqueText := prose, critiqueMode := .live, stance }
    else templated
  else templated

/-- The critique a critic contributes; one that was never asked contributes nothing. -/
def critiqueOf (roundNumber : ℕ) (critic : PanelAnswer × CriticOutcome) : Option SlotCritique :=
  match critic.2 with
  | .undispatched => none
  | .dispatched live => some (p.critiqueFromReply critic.1.slotNumber roundNumber live)

/-- The votes of a live critic with a stance: each slot with its label. -/
def critiqueVotes (critique : SlotCritique) : List (ℕ × Text) :=
  match critique.critiqueMode, critique.stance with
  | .live, some stance =>
      stance.positions.map fun position => (position.slot, p.label position.group)
  | _, _ => []

/-- The votes of a round. -/
def stanceVotes (critiques : List SlotCritique) : List (ℕ × Text) :=
  critiques.flatMap p.critiqueVotes

end PanelTables

/-- The labels voted for one slot. -/
def votesFor (votes : List (ℕ × Text)) (slot : ℕ) : List Text :=
  (votes.filter fun vote => vote.1 = slot).map Prod.snd

/-- The one label with the most votes, when these reach the threshold. -/
def pooledLabel (threshold : ℕ) (labels : List Text) : Option Text :=
  let top := (labels.map labels.count).foldr max 0
  match labels.dedup.filter fun label => labels.count label = top with
  | [winner] => if threshold ≤ top ∧ winner ≠ [] then some winner else none
  | _ => none

/-- How many critics are more than half of the eligible ones. -/
def majorityOf (eligibleCount : ℕ) : ℕ := eligibleCount / 2 + 1

/-- Each slot, from the first to the last a panel can have, with the label a strict majority of the
eligible critics voted for it. -/
def pooledPositions (eligibleCount : ℕ) (votes : List (ℕ × Text)) : List (ℕ × Text) :=
  (List.range' 1 maxSlotCount).filterMap fun slot =>
    (pooledLabel (majorityOf eligibleCount) (votesFor votes slot)).map fun label => (slot, label)

namespace PanelTables

variable (p : PanelTables)

/-- The round's stance as the strict majority of the live critics. `SlotPosition` may refuse a label
that folding its case made too long. -/
def derivePeerStance (critiques : List SlotCritique) (eligibleCount : ℕ) :
    Except String (Option (List SlotPosition)) :=
  if eligibleCount = 0 then .ok none
  else
    match (pooledPositions eligibleCount (p.stanceVotes critiques)).mapM
        fun position => p.slotPosition position.1 position.2 with
    | none => .error "ValidationError"
    | some [] => .ok none
    | some positions => .ok (some positions)

end PanelTables

end Quorum
