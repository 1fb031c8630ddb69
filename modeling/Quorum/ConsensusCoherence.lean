import Quorum.ConsensusAlignment

/-! The verdict's parts side by side: the panel's agreement, its strength and each model's alignment
tell one story, and the order of the answers is no part of it. -/

namespace Quorum.PanelTables

variable {p : PanelTables}

theorem gramsOverlap_symm {current other : List Text} (hcurrent : current.Nodup)
    (hother : other.Nodup) (h : gramsOverlap current other = true) :
    gramsOverlap other current = true := by
  have hshared : (other.filter (· ∈ current)).length = (current.filter (· ∈ other)).length := by
    apply List.Perm.length_eq
    apply (List.perm_ext_iff_of_nodup (hother.filter _) (hcurrent.filter _)).mpr
    intro gram
    simp [and_comm]
  rw [gramsOverlap] at h ⊢
  rw [hshared, Nat.add_comm other.length]
  exact h

/-- The labels are one when all of them are the same. -/
theorem dedup_eq_singleton_iff {labels : List Text} {label : Text} :
    labels.dedup = [label] ↔ label ∈ labels ∧ ∀ other ∈ labels, other = label := by
  constructor
  · intro h
    simp only [← List.mem_dedup (l := labels), h, List.mem_singleton, true_and, imp_self,
      implies_true]
  · rintro ⟨hmem, hall⟩
    apply List.perm_singleton.mp
    apply (List.perm_ext_iff_of_nodup (List.nodup_dedup _) (List.nodup_singleton label)).mpr
    intro other
    rw [List.mem_dedup, List.mem_singleton]
    constructor
    · exact hall other
    · rintro rfl
      exact hmem

theorem foldr_max_count_of_dedup {labels : List Text} {label : Text} (h : labels.dedup = [label]) :
    (labels.map labels.count).foldr max 0 = labels.count label := by
  obtain ⟨hmem, hall⟩ := dedup_eq_singleton_iff.mp h
  apply le_antisymm
  · apply foldr_max_le
    intro count hcount
    obtain ⟨other, hother, rfl⟩ := List.mem_map.mp hcount
    rw [hall other hother]
  · exact le_foldr_max (List.mem_map_of_mem hmem)

theorem lookup_map_of_nodup {stance : List (ℕ × Text)} (hnodup : (stance.map Prod.fst).Nodup)
    (flag : Text → Bool) {entry : ℕ × Text} (h : entry ∈ stance) :
    (stance.map fun entry => (entry.1, flag entry.2)).lookup entry.1 = some (flag entry.2) := by
  induction stance with
  | nil => exact absurd h List.not_mem_nil
  | cons first rest ih =>
      obtain ⟨habsent, hrest⟩ := List.nodup_cons.mp hnodup
      rw [List.map_cons, List.lookup_cons]
      rcases List.mem_cons.mp h with rfl | htail
      · rw [beq_self_eq_true]
      · have hne : entry.1 ≠ first.1 := by
          intro heq
          rw [← heq] at habsent
          exact habsent (List.mem_map_of_mem htail)
        rw [beq_false_of_ne hne]
        exact ih hrest htail

/-- Where every slot has the same label, every slot is in the majority. -/
theorem stanceFlag_of_oneGroup {stance : List (ℕ × Text)} (hnodup : (stance.map Prod.fst).Nodup)
    (hone : (stance.map Prod.snd).dedup.length = 1) {slot : ℕ}
    (hslot : slot ∈ stance.map Prod.fst) :
    stanceFlag stance slot = true := by
  obtain ⟨label, hlabel⟩ := List.length_eq_one_iff.mp hone
  obtain ⟨entry, hentry, rfl⟩ := List.mem_map.mp hslot
  have hsame : entry.2 = label :=
    (dedup_eq_singleton_iff.mp hlabel).2 _ (List.mem_map_of_mem hentry)
  have hflags : stanceMajorityFlags stance
      = stance.map fun entry => (entry.1, decide (entry.2 = label)) := by
    simp only [stanceMajorityFlags, hlabel, foldr_max_count_of_dedup hlabel, List.filter_cons,
      List.filter_nil, decide_true, if_true]
  rw [stanceFlag, hflags, lookup_map_of_nodup hnodup (fun text => decide (text = label)) hentry,
    Option.getD_some, decide_eq_true hsame]

/-- Where the slots have several labels, some slot is not in the majority. -/
theorem exists_stanceFlag_false {stance : List (ℕ × Text)} (hnodup : (stance.map Prod.fst).Nodup)
    (hne : stance ≠ []) (hmany : (stance.map Prod.snd).dedup.length ≠ 1) :
    ∃ slot ∈ stance.map Prod.fst, stanceFlag stance slot = false := by
  have hsome : ∀ flag : Text → Bool, (∃ entry ∈ stance, flag entry.2 = false) →
      stanceMajorityFlags stance = (stance.map fun entry => (entry.1, flag entry.2)) →
      ∃ slot ∈ stance.map Prod.fst, stanceFlag stance slot = false := by
    rintro flag ⟨entry, hentry, hflag⟩ hflags
    refine ⟨entry.1, List.mem_map_of_mem hentry, ?_⟩
    rw [stanceFlag, hflags, lookup_map_of_nodup hnodup flag hentry, Option.getD_some, hflag]
  rw [stanceMajorityFlags] at hsome
  split at hsome
  · next winner hwinner =>
      refine hsome (fun text => decide (text = winner)) ?_ rfl
      by_contra hall
      push Not at hall
      apply hmany
      have hmem := (List.mem_filter.mp (hwinner ▸ List.mem_cons_self)).1
      have hsingle : (stance.map Prod.snd).dedup = [winner] := by
        refine dedup_eq_singleton_iff.mpr ⟨List.mem_dedup.mp hmem, fun label hlabel => ?_⟩
        obtain ⟨entry, hentry, rfl⟩ := List.mem_map.mp hlabel
        simpa using hall entry hentry
      rw [hsingle, List.length_singleton]
  · obtain ⟨entry, hentry⟩ := List.exists_mem_of_ne_nil stance hne
    exact hsome (fun _ => false) ⟨entry, hentry, rfl⟩ rfl

theorem stance_slots_nodup {answers : List PanelAnswer} {outputs : List DebateRound}
    {stance : List (ℕ × Text)} (h : p.usableStance answers outputs = some stance) :
    (stance.map Prod.fst).Nodup := by
  obtain ⟨latest, positions, -, -, hevidence⟩ := usableStance_eq_some h
  rw [stanceEvidence] at hevidence
  split_ifs at hevidence
  rw [← Option.some.inj hevidence]
  exact (Dict.ofList (p.positionLabels positions)).nodup.sublist (List.filter_sublist.map _)

/-! ### The order of the answers -/

section
variable {texts texts' : List Text} {answers answers' : List PanelAnswer}

theorem openingFlag_perm (h : texts.Perm texts') : p.openingFlag texts = p.openingFlag texts' := by
  have hpolar : p.polarFlag texts = p.polarFlag texts' := by
    funext pair
    simp only [polarFlag, h.countP_eq]
  have hpartners : p.partnersOf texts = p.partnersOf texts' := by
    funext text
    rw [partnersOf, partnersOf, h.countP_eq]
  funext text
  rw [openingFlag, openingFlag, h.length_eq, hpolar, hpartners]

theorem hasStrongOverlap_of_perm (h : texts.Perm texts')
    (hoverlap : p.hasStrongOverlap texts = true) :
    p.hasStrongOverlap texts' = true := by
  rw [hasStrongOverlap, List.any_eq_true] at hoverlap ⊢
  obtain ⟨trio, htrio, hpairs⟩ := hoverlap
  obtain ⟨hsub, hlength⟩ := List.mem_sublistsLen.mp htrio
  obtain ⟨trio', hperm, hsub'⟩ :=
    List.exists_perm_sublist hsub (h.map fun text => p.fourGrams (excerpt text))
  refine ⟨trio', List.mem_sublistsLen.mpr ⟨hsub', hperm.length_eq.trans hlength⟩, ?_⟩
  have hnodup : ∀ grams ∈ trio, grams.Nodup := by
    intro grams hgrams
    obtain ⟨text, -, rfl⟩ := List.mem_map.mp (hsub.subset hgrams)
    rw [fourGrams]
    split <;> exact List.nodup_dedup _
  -- overlap is symmetric on sets of 4-grams only, so the sets' distinctness goes with it
  have hsets : trio.Pairwise fun current other =>
      current.Nodup ∧ other.Nodup ∧ gramsOverlap current other = true := by
    refine List.Pairwise.imp_of_mem ?_ (of_decide_eq_true hpairs)
    exact fun hcurrent hother hpair => ⟨hnodup _ hcurrent, hnodup _ hother, hpair⟩
  have hsymm : ∀ {current other : List Text},
      (current.Nodup ∧ other.Nodup ∧ gramsOverlap current other = true) →
        other.Nodup ∧ current.Nodup ∧ gramsOverlap other current = true :=
    fun ⟨hcurrent, hother, hpair⟩ => ⟨hother, hcurrent, gramsOverlap_symm hcurrent hother hpair⟩
  exact decide_eq_true (((hperm.pairwise_iff hsymm).mpr hsets).imp fun hpair => hpair.2.2)

theorem hasStrongOverlap_perm (h : texts.Perm texts') :
    p.hasStrongOverlap texts = p.hasStrongOverlap texts' :=
  Bool.eq_iff_iff.mpr ⟨hasStrongOverlap_of_perm h, hasStrongOverlap_of_perm h.symm⟩

theorem hasPolarDisagreement_perm (h : texts.Perm texts') :
    p.hasPolarDisagreement texts = p.hasPolarDisagreement texts' := by
  simp only [hasPolarDisagreement, h.length_eq, (h.map p.lower).any_eq]

theorem vocabularyStrength_perm (h : texts.Perm texts') (outputs : List DebateRound) :
    p.vocabularyStrength texts outputs = p.vocabularyStrength texts' outputs := by
  rw [vocabularyStrength, vocabularyStrength, hasStrongOverlap_perm h, hasPolarDisagreement_perm h]

theorem mem_scoredSlotNumbers_perm (h : answers.Perm answers') (slot : ℕ) :
    slot ∈ p.scoredSlotNumbers answers ↔ slot ∈ p.scoredSlotNumbers answers' := by
  simp only [mem_scoredSlotNumbers, h.mem_iff]

theorem stanceEvidence_congr {scored scored' : List ℕ} (h : ∀ slot, slot ∈ scored ↔ slot ∈ scored')
    (positions : List SlotPosition) :
    p.stanceEvidence scored positions = p.stanceEvidence scored' positions := by
  have hall : ∀ keep : ℕ → Bool, scored.all keep = scored'.all keep := by
    intro keep
    apply Bool.eq_iff_iff.mpr
    simp only [List.all_eq_true, h]
  simp only [stanceEvidence, hall, h]

theorem usableStance_perm (h : answers.Perm answers') (outputs : List DebateRound) :
    p.usableStance answers outputs = p.usableStance answers' outputs := by
  have hnil : p.scoredSlotNumbers answers = [] ↔ p.scoredSlotNumbers answers' = [] := by
    simp only [List.eq_nil_iff_forall_not_mem, mem_scoredSlotNumbers_perm h]
  have hevidence : p.stanceEvidence (p.scoredSlotNumbers answers)
      = p.stanceEvidence (p.scoredSlotNumbers answers') :=
    funext fun positions => stanceEvidence_congr (mem_scoredSlotNumbers_perm h) positions
  simp only [usableStance, hnil, hevidence]

theorem panelAgreement_perm (h : answers.Perm answers') (outputs : List DebateRound) :
    p.panelAgreement answers outputs = p.panelAgreement answers' outputs := by
  rw [panelAgreement, panelAgreement, usableStance_perm h]

theorem computeConsensusStrength_perm (h : answers.Perm answers') (outputs : List DebateRound) :
    p.computeConsensusStrength answers outputs = p.computeConsensusStrength answers' outputs := by
  have hscored := h.filter p.countsAsEvidence
  have hnil : answers.filter p.countsAsEvidence = [] ↔ answers'.filter p.countsAsEvidence = [] := by
    rw [← List.length_eq_zero_iff, hscored.length_eq, List.length_eq_zero_iff]
  rw [computeConsensusStrength, computeConsensusStrength]
  simp only [hnil, hscored.length_eq, usableStance_perm h]
  rw [vocabularyStrength_perm (hscored.map _)]

theorem majorityFlag_perm (h : answers.Perm answers') (stance : Option (List (ℕ × Text))) :
    p.majorityFlag stance answers = p.majorityFlag stance answers' := by
  funext answer
  cases stance with
  | none => exact congrFun (openingFlag_perm (h.map p.scoringText)) _
  | some stance => rfl

/-- Each answer has the same row in every order of the answers. -/
theorem classifyModelAlignment_perm (h : answers'.Perm answers) (outputs : List DebateRound)
    (modelAuthoredFinalText : Option Text) (finalAnswerWasTemplated : Bool)
    {rows : List ModelAlignment}
    (hrows : p.classifyModelAlignment answers outputs modelAuthoredFinalText finalAnswerWasTemplated
      = .ok rows) :
    ∃ rows',
      p.classifyModelAlignment answers' outputs modelAuthoredFinalText finalAnswerWasTemplated
        = .ok rows' ∧ rows'.Perm rows := by
  rw [classifyModelAlignment_eq] at hrows ⊢
  refine ⟨_, rfl, ?_⟩
  rw [← Except.ok.inj hrows, usableStance_perm h, majorityFlag_perm (h.filter p.countsAsEvidence)]
  exact h.map _

end

/-! ### The rows -/

theorem alignmentRow_slotNumber (stanceKnown : Bool) (finalText : Text) (templated : Bool)
    (answer : PanelAnswer) (majority : Option Bool) :
    (p.alignmentRow stanceKnown finalText templated answer majority).slotNumber
      = answer.slotNumber :=
  rfl

/-- A row that is not scored is neither aligned nor revised. -/
theorem alignmentRow_unscored (stanceKnown : Bool) (finalText : Text) (templated : Bool)
    (answer : PanelAnswer) :
    (p.alignmentRow stanceKnown finalText templated answer none).finalAligned = false
      ∧ (p.alignmentRow stanceKnown finalText templated answer none).revised = false :=
  ⟨rfl, rfl⟩

/-- With a stance a scored row is aligned as it opened, and so it is not revised. -/
theorem alignmentRow_stance (finalText : Text) (templated : Bool) (answer : PanelAnswer)
    (flag : Bool) :
    (p.alignmentRow true finalText templated answer (some flag)).finalAligned = flag
      ∧ (p.alignmentRow true finalText templated answer (some flag)).revised = false := by
  cases flag <;> exact ⟨rfl, rfl⟩

/-- The parts of a verdict over a panel tell one story. -/
structure Coheres (p : PanelTables) (answers : List PanelAnswer) (outputs : List DebateRound)
    (rows : List ModelAlignment) : Prop where
  slots : rows.map ModelAlignment.slotNumber = answers.map PanelAnswer.slotNumber
  agreed : p.panelAgreement answers outputs = .agreed →
    p.computeConsensusStrength answers outputs = .strong
      ∧ ∀ row ∈ rows, row.finalAligned = true ↔ row.slotNumber ∈ p.scoredSlotNumbers answers
  split : p.panelAgreement answers outputs = .split →
    ∃ row ∈ rows, row.slotNumber ∈ p.scoredSlotNumbers answers ∧ row.finalAligned = false
  unrevised : (p.usableStance answers outputs).isSome → ∀ row ∈ rows, row.revised = false
  unscored : ∀ row ∈ rows, row.slotNumber ∉ p.scoredSlotNumbers answers →
    row.finalAligned = false ∧ row.revised = false

/-- A panel that reads agreed or split has a usable stance of two slots or more. -/
theorem usable_of_panelAgreement {answers : List PanelAnswer} {outputs : List DebateRound}
    (h : p.panelAgreement answers outputs ≠ .undetermined) :
    ∃ stance, p.usableStance answers outputs = some stance ∧ 2 ≤ stance.length
      ∧ (p.panelAgreement answers outputs = .agreed ↔ (stance.map Prod.snd).dedup.length = 1) := by
  rw [panelAgreement] at h ⊢
  cases hstance : p.usableStance answers outputs with
  | none =>
      rw [hstance] at h
      exact absurd rfl h
  | some stance =>
      rw [hstance] at h
      by_cases hshort : stance.length < 2
      · exact absurd (if_pos hshort) h
      · refine ⟨stance, rfl, Nat.not_lt.mp hshort, ?_⟩
        dsimp only
        rw [if_neg hshort]
        split_ifs with hone <;> simp [hone]

/-- The scored slots of a stance are no more than the scored answers. -/
theorem length_stance_le {answers : List PanelAnswer} {outputs : List DebateRound}
    {stance : List (ℕ × Text)} (h : p.usableStance answers outputs = some stance) :
    stance.length ≤ (answers.filter p.countsAsEvidence).length := by
  calc stance.length = (stance.map Prod.fst).length := (List.length_map _).symm
    _ ≤ (p.scoredSlotNumbers answers).length :=
        ((stance_slots_nodup h).subperm fun slot hslot =>
          (mem_slots_of_usableStance h).mp hslot).length_le
    _ ≤ ((answers.filter p.countsAsEvidence).map PanelAnswer.slotNumber).length :=
        (List.dedup_sublist _).length_le
    _ = (answers.filter p.countsAsEvidence).length := List.length_map _

theorem strong_of_agreed {answers : List PanelAnswer} {outputs : List DebateRound}
    (h : p.panelAgreement answers outputs = .agreed) :
    p.computeConsensusStrength answers outputs = .strong := by
  obtain ⟨stance, hstance, hlength, hone⟩ := (p.panelAgreement_eq_agreed_iff answers outputs).mp h
  apply (p.computeConsensusStrength_eq_strong_iff answers outputs).mpr
  refine ⟨hlength.trans (length_stance_le hstance), ?_⟩
  rw [hstance]
  exact ⟨by omega, Or.inl hone⟩

/-- With distinct slot numbers an answer is scored when its slot is. -/
theorem countsAsEvidence_iff {answers : List PanelAnswer}
    (hslots : (answers.map PanelAnswer.slotNumber).Nodup) {answer : PanelAnswer}
    (h : answer ∈ answers) :
    p.countsAsEvidence answer = true ↔ answer.slotNumber ∈ p.scoredSlotNumbers answers := by
  rw [mem_scoredSlotNumbers]
  constructor
  · exact fun hcounts => ⟨answer, h, hcounts, rfl⟩
  · rintro ⟨other, hother, hcounts, hslot⟩
    rwa [List.inj_on_of_nodup_map hslots h hother hslot.symm]

/-- The agreement, the strength and the rows of every panel cohere. -/
theorem coheres_classifyModelAlignment {answers : List PanelAnswer}
    (hslots : (answers.map PanelAnswer.slotNumber).Nodup) (outputs : List DebateRound)
    (finalText : Text) (templated : Bool) :
    p.Coheres answers outputs (answers.map fun answer =>
      p.alignmentRow (p.usableStance answers outputs).isSome finalText templated answer
        (if p.countsAsEvidence answer then
          some (p.majorityFlag (p.usableStance answers outputs)
            (answers.filter p.countsAsEvidence) answer)
        else none)) := by
  have hunscored : ∀ answer ∈ answers, answer.slotNumber ∉ p.scoredSlotNumbers answers →
      p.countsAsEvidence answer = false := by
    intro answer hanswer hslot
    rw [← countsAsEvidence_iff hslots hanswer] at hslot
    simpa using hslot
  constructor
  case slots =>
    rw [List.map_map]
    rfl
  case agreed =>
    intro hagreed
    refine ⟨strong_of_agreed hagreed, fun row hrow => ?_⟩
    obtain ⟨answer, hanswer, rfl⟩ := List.mem_map.mp hrow
    have hknown : p.panelAgreement answers outputs ≠ .undetermined := by
      rw [hagreed]
      decide
    obtain ⟨stance, hstance, -, hone⟩ := usable_of_panelAgreement hknown
    rw [alignmentRow_slotNumber, ← countsAsEvidence_iff hslots hanswer, hstance, Option.isSome_some]
    cases hcounts : p.countsAsEvidence answer with
    | false => simp [(alignmentRow_unscored (p := p) true finalText templated answer).1]
    | true =>
        have hslot := (mem_slots_of_usableStance hstance).mpr
          ((countsAsEvidence_iff hslots hanswer).mp hcounts)
        rw [if_pos rfl, (alignmentRow_stance finalText templated answer _).1]
        simpa [majorityFlag] using
          stanceFlag_of_oneGroup (stance_slots_nodup hstance) (hone.mp hagreed) hslot
  case split =>
    intro hsplit
    have hknown : p.panelAgreement answers outputs ≠ .undetermined := by
      rw [hsplit]
      decide
    obtain ⟨stance, hstance, hlength, hone⟩ := usable_of_panelAgreement hknown
    have hmany : (stance.map Prod.snd).dedup.length ≠ 1 := by
      rw [Ne, ← hone, hsplit]
      decide
    have hne : stance ≠ [] := by
      rintro rfl
      exact absurd hlength (by decide)
    obtain ⟨slot, hslot, hflag⟩ := exists_stanceFlag_false (stance_slots_nodup hstance) hne hmany
    have hscored := (mem_slots_of_usableStance hstance).mp hslot
    obtain ⟨answer, hanswer, hcounts, rfl⟩ := mem_scoredSlotNumbers.mp hscored
    refine ⟨_, List.mem_map_of_mem hanswer, hscored, ?_⟩
    rw [hstance, if_pos hcounts, Option.isSome_some, (alignmentRow_stance _ _ _ _).1]
    exact hflag
  case unrevised =>
    intro husable row hrow
    obtain ⟨answer, -, rfl⟩ := List.mem_map.mp hrow
    rw [husable]
    split
    · exact (alignmentRow_stance _ _ _ _).2
    · exact (alignmentRow_unscored _ _ _ _).2
  case unscored =>
    intro row hrow hslot
    obtain ⟨answer, hanswer, rfl⟩ := List.mem_map.mp hrow
    rw [hunscored answer hanswer hslot]
    exact alignmentRow_unscored _ _ _ _

/-- Over every panel of distinct slots and every debate the classification returns rows that cohere
with the agreement and the strength, and a permutation of the answers changes none of the three. -/
theorem verdict_coheres (p : PanelTables) (answers : List PanelAnswer)
    (hslots : (answers.map PanelAnswer.slotNumber).Nodup) (outputs : List DebateRound)
    (modelAuthoredFinalText : Option Text) (finalAnswerWasTemplated : Bool) :
    ∃ rows, p.classifyModelAlignment answers outputs modelAuthoredFinalText finalAnswerWasTemplated
        = .ok rows
      ∧ p.Coheres answers outputs rows
      ∧ ∀ answers' : List PanelAnswer, answers'.Perm answers →
          p.panelAgreement answers' outputs = p.panelAgreement answers outputs
          ∧ p.computeConsensusStrength answers' outputs = p.computeConsensusStrength answers outputs
          ∧ ∃ rows', p.classifyModelAlignment answers' outputs modelAuthoredFinalText
                finalAnswerWasTemplated = .ok rows'
            ∧ rows'.Perm rows := by
  refine ⟨_, classifyModelAlignment_eq .., coheres_classifyModelAlignment hslots .., ?_⟩
  intro answers' hperm
  exact ⟨panelAgreement_perm hperm outputs, computeConsensusStrength_perm hperm outputs,
    classifyModelAlignment_perm hperm outputs _ _ (classifyModelAlignment_eq ..)⟩

/-- A live moderator's round that places three slots in the given groups. -/
def moderatorRound (groups : Char × Char × Char) : DebateRound :=
  { roundNumber := 1, critiqueText := "Compared.".toList, debateMode := .live
    panelStance := some
      [{ slot := 1, group := [groups.1], range := slotNumber_one_range },
        { slot := 2, group := [groups.2.1], range := slotNumber_two_range },
        { slot := 3, group := [groups.2.2], range := slotNumber_three_range }]
    critiqueShape := .moderator, slotCritiques := [], eligibleCriticCount := 0 }

theorem verdict_coheres_agreed :
    let answers := [slotAnswer 1, slotAnswer 2, slotAnswer 3]
    let outputs := [moderatorRound ('a', 'a', 'a')]
    asciiPanelTables.panelAgreement answers outputs = .agreed
      ∧ ∃ rows, asciiPanelTables.classifyModelAlignment answers outputs none false = .ok rows
        ∧ ∀ row ∈ rows, row.finalAligned = true
            ↔ row.slotNumber ∈ asciiPanelTables.scoredSlotNumbers answers := by
  obtain ⟨rows, hrows, hcoheres, -⟩ := verdict_coheres asciiPanelTables
    [slotAnswer 1,
      slotAnswer 2, slotAnswer 3] (by decide) [moderatorRound ('a', 'a', 'a')] none false
  have hagreed : asciiPanelTables.panelAgreement [slotAnswer 1, slotAnswer 2, slotAnswer 3]
      [moderatorRound ('a', 'a', 'a')] = .agreed := by
    decide +kernel
  exact ⟨hagreed, rows, hrows, (hcoheres.agreed hagreed).2⟩

end Quorum.PanelTables
