import Quorum.PanelVerdict

/-! Where each model stands (`classify_model_alignment`): on the side of the panel's majority, by
the stance when one is usable and by the openings' words when none is, and in the final answer or
not. -/

namespace Quorum

/-- How one model's opening relates to the majority and to the final answer. -/
structure ModelAlignment where
  slotNumber : ℕ
  completed : Bool
  openingMajority : Bool
  finalAligned : Bool
  revised : Bool
  invoked : Bool
deriving DecidableEq

/-- Per slot, is its label the one with strictly the most slots? -/
def stanceMajorityFlags (stance : List (ℕ × Text)) : List (ℕ × Bool) :=
  let labels := stance.map Prod.snd
  let largest := (labels.map labels.count).foldr max 0
  match labels.dedup.filter fun label => labels.count label = largest with
  | [winner] => stance.map fun entry => (entry.1, decide (entry.2 = winner))
  | _ => stance.map fun entry => (entry.1, false)

/-- The verdict ring's numbers: how many models are aligned, of how many. -/
def summarizeAgreement (answers : List PanelAnswer) (alignments : List ModelAlignment) : ℕ × ℕ :=
  (min (alignments.countP ModelAlignment.finalAligned) answers.length, answers.length)

namespace PanelTables

variable (p : PanelTables)

/-- The text has the word and not its antonym. -/
def polarSide (word antonym text : Text) : Bool :=
  p.hasWord word text && !p.hasWord antonym text

/-- The strictly larger side of the first polar pair on which the texts split; nobody's on a tie. -/
def polarSplit (completedTexts : List Text) : Option (List Bool) :=
  if completedTexts.length < 2 then none
  else
    polarPairs.findSome? fun (a, b) =>
      let sideA := completedTexts.map fun text => p.polarSide a b (p.lower text)
      let sideB := completedTexts.map fun text => p.polarSide b a (p.lower text)
      let countA := sideA.count true
      let countB := sideB.count true
      if 1 ≤ countA ∧ 1 ≤ countB then
        if countB < countA then some sideA
        else if countA < countB then some sideB
        else some (completedTexts.map fun _ => false)
      else none

/-- The openings of two texts share a tenth of their 4-grams. -/
def openingsOverlap (current other : Text) : Bool :=
  gramsOverlap (p.fourGrams (excerpt current)) (p.fourGrams (excerpt other))

/-- Per text, the number of other completed answers it overlaps with. -/
def overlapPartnerCounts (completedTexts : List Text) : List ℕ :=
  completedTexts.zipIdx.map fun (text, index) =>
    (completedTexts.eraseIdx index).countP (p.openingsOverlap text)

/-- Per text, does its opening cluster with the majority? -/
def openingMajorityFlags (completedTexts : List Text) : List Bool :=
  if completedTexts.length = 0 then []
  else if completedTexts.length = 1 then [true]
  else
    match p.polarSplit completedTexts with
    | some polar => polar
    | none => (p.overlapPartnerCounts completedTexts).map fun partners => decide (1 ≤ partners)

/-- A tenth of the opening's 4-grams are in the final answer. -/
def openingReflectedInFinal (openingText finalText : Text) : Bool :=
  let openingGrams := p.fourGrams (excerpt openingText)
  let finalGrams := p.fourGrams (p.stripOwnCaveat finalText)
  openingGrams ≠ [] && finalGrams ≠ []
    && openingGrams.length ≤ 10 * (openingGrams.filter (· ∈ finalGrams)).length

/-- The answer put text on the screen. -/
def isCompleted (answer : PanelAnswer) : Bool :=
  answer.status = .completed && p.isVisible answer.answerText

def scoringText (answer : PanelAnswer) : Text :=
  p.stripOwnCaveat answer.answerText

/-- The flags of the scored answers, each from the stance when there is one. A stance without one of
their slots would raise `KeyError`. -/
def majorityFlags (stance : Option (List (ℕ × Text))) (scored : List PanelAnswer) :
    Except String (List Bool) :=
  match stance with
  | none => .ok (p.openingMajorityFlags (scored.map p.scoringText))
  | some stance =>
      scored.mapM fun answer =>
        match (stanceMajorityFlags stance).lookup answer.slotNumber with
        | some flag => .ok flag
        | none => .error "KeyError"

/-- One answer's row, given its flag if it is scored. A minority opener is aligned only where there
is no stance and the final answer that a model wrote reflects its opening. -/
def alignmentRow (stanceKnown : Bool) (finalText : Text) (finalAnswerWasTemplated : Bool)
    (answer : PanelAnswer) (majority : Option Bool) : ModelAlignment :=
  let openingMajority := majority.getD false
  let finalAligned :=
    if majority.isNone then false
    else if openingMajority then true
    else if stanceKnown then false
    else if p.isVisible finalText then p.openingReflectedInFinal (p.scoringText answer) finalText
    else if finalAnswerWasTemplated then false
    else false
  { slotNumber := answer.slotNumber
    completed := p.isCompleted answer
    openingMajority
    finalAligned
    revised := majority.isSome && openingMajority != finalAligned
    invoked := answer.modelWasInvoked }

/-- One row for each answer, in the answers' order. The flags go to the scored answers by their
indices; `zip` is strict. -/
def classifyModelAlignment (answers : List PanelAnswer) (outputs : List DebateRound)
    (modelAuthoredFinalText : Option Text) (finalAnswerWasTemplated : Bool) :
    Except String (List ModelAlignment) :=
  let stance := p.usableStance answers outputs
  let scored := answers.zipIdx.filter fun entry => p.countsAsEvidence entry.1
  let finalText := p.strip (modelAuthoredFinalText.getD [])
  (p.majorityFlags stance (scored.map Prod.fst)).bind fun flags =>
    if flags.length = scored.length then
      let majorityByIndex := (scored.map Prod.snd).zip flags
      .ok (answers.zipIdx.map fun (answer, index) =>
        p.alignmentRow stance.isSome finalText finalAnswerWasTemplated answer
          (majorityByIndex.lookup index))
    else .error "ValueError"

/-! ### The flag of one answer -/

/-- What a polar pair says of each text, when the texts split on it. -/
def polarFlag (texts : List Text) (pair : Text × Text) : Option (Text → Bool) :=
  let countA := texts.countP fun text => p.polarSide pair.1 pair.2 (p.lower text)
  let countB := texts.countP fun text => p.polarSide pair.2 pair.1 (p.lower text)
  if 1 ≤ countA ∧ 1 ≤ countB then
    if countB < countA then some fun text => p.polarSide pair.1 pair.2 (p.lower text)
    else if countA < countB then some fun text => p.polarSide pair.2 pair.1 (p.lower text)
    else some fun _ => false
  else none

/-- The partners of one text; it is none of its own. -/
def partnersOf (texts : List Text) (text : Text) : ℕ :=
  texts.countP (p.openingsOverlap text) - if p.openingsOverlap text text then 1 else 0

/-- Does the text's opening cluster with the majority of the texts? -/
def openingFlag (texts : List Text) (text : Text) : Bool :=
  if texts.length = 1 then true
  else
    match polarPairs.findSome? (p.polarFlag texts) with
    | some flag => flag text
    | none => decide (1 ≤ p.partnersOf texts text)

/-- The stance's flag of a slot. -/
def stanceFlag (stance : List (ℕ × Text)) (slot : ℕ) : Bool :=
  ((stanceMajorityFlags stance).lookup slot).getD false

/-- The flag of a scored answer among the scored answers. -/
def majorityFlag (stance : Option (List (ℕ × Text))) (scored : List PanelAnswer)
    (answer : PanelAnswer) : Bool :=
  match stance with
  | none => p.openingFlag (scored.map p.scoringText) (p.scoringText answer)
  | some stance => stanceFlag stance answer.slotNumber

variable {p}

theorem polarSplit_eq (texts : List Text) :
    p.polarSplit texts = if texts.length < 2 then none
      else (polarPairs.findSome? (p.polarFlag texts)).map fun flag => texts.map flag := by
  rw [polarSplit]
  split
  · rfl
  · rw [List.map_findSome?]
    congr 1
    funext pair
    have hcount : ∀ side : Text → Bool, (texts.map side).count true = texts.countP side := by
      intro side
      rw [List.count, List.countP_map]
      congr 1
      funext text
      cases h : side text <;> simp [h]
    simp only [Function.comp_apply, polarFlag, hcount]
    split_ifs <;> rfl

/-- The panel disagrees on a polar marker when it splits on one. -/
theorem hasPolarDisagreement_eq (texts : List Text) :
    p.hasPolarDisagreement texts = (p.polarSplit texts).isSome := by
  have hside : ∀ pair : Text × Text, (p.polarFlag texts pair).isSome =
      ((texts.map p.lower).any (fun text => p.hasWord pair.1 text && !p.hasWord pair.2 text)
        && (texts.map p.lower).any fun text => p.hasWord pair.2 text
          && !p.hasWord pair.1 text) := by
    intro pair
    have hany : ∀ word antonym,
        (1 ≤ texts.countP fun text => p.polarSide word antonym (p.lower text))
        ↔ (texts.map p.lower).any (fun text => p.hasWord word text && !p.hasWord antonym text) := by
      intro word antonym
      rw [Nat.one_le_iff_ne_zero, ← Nat.pos_iff_ne_zero, List.countP_pos_iff, List.any_map,
        List.any_eq_true]
      rfl
    apply Bool.eq_iff_iff.mpr
    rw [Bool.and_eq_true, ← hany, ← hany, polarFlag]
    split_ifs with hboth <;>
      simp only [hboth, Option.isSome_some, Option.isSome_none, and_self, Bool.false_eq_true]
  rw [polarSplit_eq, hasPolarDisagreement]
  split_ifs with hshort
  · simp [Nat.not_le.mpr hshort]
  · rw [Option.isSome_map, List.isSome_findSome?]
    simp only [hside, Nat.not_lt.mp hshort, decide_true, Bool.true_and]

theorem countP_eraseIdx (texts : List Text) (keep : Text → Bool) :
    ∀ {index : ℕ} {text : Text}, texts[index]? = some text →
      (texts.eraseIdx index).countP keep = texts.countP keep - if keep text then 1 else 0 := by
  induction texts with
  | nil =>
      intro index text h
      cases h
  | cons first rest ih =>
      intro index text h
      cases index with
      | zero =>
          obtain rfl : first = text := Option.some.inj h
          rw [List.eraseIdx_cons_zero, List.countP_cons]
          omega
      | succ index =>
          have hrest : rest[index]? = some text := h
          have hmem := List.mem_of_getElem? hrest
          rw [List.eraseIdx_cons_succ, List.countP_cons, ih hrest, List.countP_cons]
          by_cases hkeep : keep text = true
          · have hpos := List.countP_pos_iff.mpr ⟨text, hmem, hkeep⟩
            rw [if_pos hkeep]
            omega
          · rw [if_neg hkeep]
            omega

theorem map_eq_map_zipIdx {α β : Type} (items : List α) (f : α → β) :
    items.map f = items.zipIdx.map fun entry => f entry.1 := by
  conv_lhs => rw [← List.zipIdx_map_fst 0 items, List.map_map]
  rfl

theorem overlapPartnerCounts_eq (texts : List Text) :
    p.overlapPartnerCounts texts = texts.map (p.partnersOf texts) := by
  rw [overlapPartnerCounts, map_eq_map_zipIdx texts]
  refine List.map_congr_left fun entry hentry => ?_
  exact countP_eraseIdx texts _ (List.mk_mem_zipIdx_iff_getElem?.mp hentry)

/-- The openings' flags are given text by text. -/
theorem openingMajorityFlags_eq (texts : List Text) :
    p.openingMajorityFlags texts = texts.map (p.openingFlag texts) := by
  rw [openingMajorityFlags]
  split_ifs with hzero hone
  · rw [List.length_eq_zero_iff.mp hzero, List.map_nil]
  · obtain ⟨text, rfl⟩ := List.length_eq_one_iff.mp hone
    rfl
  · rw [polarSplit_eq, if_neg (by omega)]
    have hflag : p.openingFlag texts = fun text =>
        match polarPairs.findSome? (p.polarFlag texts) with
        | some flag => flag text
        | none => decide (1 ≤ p.partnersOf texts text) := by
      funext text
      rw [openingFlag, if_neg hone]
    rw [hflag]
    cases polarPairs.findSome? (p.polarFlag texts) with
    | none => rw [Option.map_none, overlapPartnerCounts_eq, List.map_map]; rfl
    | some flag => rfl

theorem stanceMajorityFlags_slots (stance : List (ℕ × Text)) :
    (stanceMajorityFlags stance).map Prod.fst = stance.map Prod.fst := by
  rw [stanceMajorityFlags]
  split <;> rw [List.map_map] <;> rfl

theorem lookup_stanceMajorityFlags {stance : List (ℕ × Text)} {slot : ℕ}
    (h : slot ∈ stance.map Prod.fst) :
    (stanceMajorityFlags stance).lookup slot = some (stanceFlag stance slot) := by
  rw [← stanceMajorityFlags_slots] at h
  obtain ⟨entry, hentry, rfl⟩ := List.mem_map.mp h
  have hsome : ((stanceMajorityFlags stance).lookup entry.1).isSome :=
    List.lookup_isSome_iff.mpr ⟨entry, hentry, beq_self_eq_true _⟩
  obtain ⟨flag, hflag⟩ := Option.isSome_iff_exists.mp hsome
  rw [stanceFlag, hflag, Option.getD_some]

/-- A usable stance has a label for every scored slot. -/
theorem mem_slots_of_usableStance {answers : List PanelAnswer} {outputs : List DebateRound}
    {stance : List (ℕ × Text)} (h : p.usableStance answers outputs = some stance) {slot : ℕ} :
    slot ∈ stance.map Prod.fst ↔ slot ∈ p.scoredSlotNumbers answers := by
  obtain ⟨latest, positions, -, -, hevidence⟩ := usableStance_eq_some h
  constructor
  · intro hslot
    obtain ⟨entry, hentry, rfl⟩ := List.mem_map.mp hslot
    rw [stanceEvidence] at hevidence
    split_ifs at hevidence
    rw [← Option.some.inj hevidence] at hentry
    exact of_decide_eq_true (List.mem_filter.mp hentry).2
  · intro hslot
    obtain ⟨label, hlabel, -⟩ := scored_of_stanceEvidence hevidence hslot
    exact List.mem_map.mpr ⟨_, hlabel, rfl⟩

theorem mem_scoredSlotNumbers {answers : List PanelAnswer} {slot : ℕ} :
    slot ∈ p.scoredSlotNumbers answers
      ↔ ∃ answer ∈ answers, p.countsAsEvidence answer = true ∧ answer.slotNumber = slot := by
  simp [scoredSlotNumbers, and_assoc]

/-- The flags never raise, and are given answer by answer. -/
theorem majorityFlags_eq (answers : List PanelAnswer) (outputs : List DebateRound) :
    p.majorityFlags (p.usableStance answers outputs) (answers.filter p.countsAsEvidence)
      = .ok ((answers.filter p.countsAsEvidence).map
          (p.majorityFlag (p.usableStance answers outputs)
            (answers.filter p.countsAsEvidence))) := by
  cases hstance : p.usableStance answers outputs with
  | none => rw [majorityFlags, openingMajorityFlags_eq, List.map_map]; rfl
  | some stance =>
      have hslots : ∀ answer ∈ answers.filter p.countsAsEvidence,
          answer.slotNumber ∈ stance.map Prod.fst := by
        intro answer hanswer
        obtain ⟨hmem, hcounts⟩ := List.mem_filter.mp hanswer
        exact (mem_slots_of_usableStance hstance).mpr
          (mem_scoredSlotNumbers.mpr ⟨answer, hmem, hcounts, rfl⟩)
      rw [majorityFlags]
      generalize answers.filter p.countsAsEvidence = scored at hslots
      induction scored with
      | nil => rfl
      | cons answer rest ih =>
          rw [List.mapM_cons, lookup_stanceMajorityFlags (hslots answer List.mem_cons_self),
            ih fun other hother => hslots other (List.mem_cons_of_mem _ hother)]
          rfl

/-- The flag dealt to an index is its own element's. -/
theorem lookup_zip_filter {entries : List (PanelAnswer × ℕ)} {keep flag : PanelAnswer → Bool}
    (hnodup : (entries.map Prod.snd).Nodup) {answer : PanelAnswer} {index : ℕ}
    (h : (answer, index) ∈ entries) :
    (((entries.filter fun entry => keep entry.1).map Prod.snd).zip
        ((entries.filter fun entry => keep entry.1).map fun entry => flag entry.1)).lookup index
      = if keep answer then some (flag answer) else none := by
  rw [List.zip_map']
  induction entries with
  | nil => exact absurd h List.not_mem_nil
  | cons first rest ih =>
      obtain ⟨habsent, hrest⟩ := List.nodup_cons.mp hnodup
      rcases List.mem_cons.mp h with rfl | htail
      · cases hkeep : keep answer with
        | true => rw [List.filter_cons_of_pos (by exact hkeep), List.map_cons, List.lookup_cons_self,
            if_pos rfl]
        | false =>
            rw [List.filter_cons_of_neg (by simp [hkeep]), if_neg Bool.false_ne_true,
              List.lookup_eq_none_iff]
            rintro ⟨other, bit⟩ hother
            obtain ⟨entry, hentry, heq⟩ := List.mem_map.mp hother
            have hmem : entry.2 ∈ rest.map Prod.snd :=
              List.mem_map_of_mem (List.mem_filter.mp hentry).1
            have hne : index ≠ other := by
              rintro rfl
              rw [(Prod.mk.inj heq).1] at hmem
              exact habsent hmem
            simpa using hne
      · have hne : index ≠ first.2 := by
          rintro rfl
          exact habsent (List.mem_map.mpr ⟨_, htail, rfl⟩)
        rw [← ih hrest htail]
        cases hkeep : keep first.1 with
        | true =>
            rw [List.filter_cons_of_pos (by exact hkeep), List.map_cons, List.lookup_cons,
              beq_false_of_ne hne]
        | false => rw [List.filter_cons_of_neg (by simp [hkeep])]

/-- Each answer's row depends on the rest of the panel through its flag alone. -/
theorem classifyModelAlignment_eq (answers : List PanelAnswer) (outputs : List DebateRound)
    (modelAuthoredFinalText : Option Text) (finalAnswerWasTemplated : Bool) :
    p.classifyModelAlignment answers outputs modelAuthoredFinalText finalAnswerWasTemplated
      = .ok (answers.map fun answer =>
          p.alignmentRow (p.usableStance answers outputs).isSome
            (p.strip (modelAuthoredFinalText.getD [])) finalAnswerWasTemplated answer
            (if p.countsAsEvidence answer then
              some (p.majorityFlag (p.usableStance answers outputs)
                (answers.filter p.countsAsEvidence) answer)
            else none)) := by
  have hscored : (answers.zipIdx.filter fun entry => p.countsAsEvidence entry.1).map Prod.fst
      = answers.filter p.countsAsEvidence := by
    have hfilter := List.filter_map (f := Prod.fst) (p := p.countsAsEvidence) (l := answers.zipIdx)
    rw [List.zipIdx_map_fst] at hfilter
    exact hfilter.symm
  rw [classifyModelAlignment]
  simp only [hscored, majorityFlags_eq, Except.bind]
  have hlength : (answers.filter p.countsAsEvidence).length
      = (answers.zipIdx.filter fun entry => p.countsAsEvidence entry.1).length := by
    rw [← hscored, List.length_map]
  rw [List.length_map, if_pos hlength]
  rw [map_eq_map_zipIdx answers]
  refine congrArg Except.ok (List.map_congr_left fun entry hentry => ?_)
  have hnodup : (answers.zipIdx.map Prod.snd).Nodup := by
    rw [List.zipIdx_map_snd]
    exact List.nodup_range' 1
  rw [← lookup_zip_filter hnodup hentry, ← hscored, List.map_map]
  rfl

end PanelTables

end Quorum
