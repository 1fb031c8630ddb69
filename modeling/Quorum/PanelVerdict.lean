import Quorum.PanelLoss

/-! The verdict after the loss of critics: it is raised exactly where the round's own stance no
longer covers the scored slots and what the code falls back on claims more than that stance did. -/

namespace Quorum

/-- A stance that shows one group of at least two slots. -/
def OneGroup (stance : List (ℕ × Text)) : Prop :=
  2 ≤ stance.length ∧ (stance.map Prod.snd).dedup.length = 1

/-- A stance over more than one slot that shows one group, or a group of a strict majority. -/
def MajorityGroup (stance : List (ℕ × Text)) : Prop :=
  stance.length ≠ 1 ∧ ((stance.map Prod.snd).dedup.length = 1
    ∨ ∃ label ∈ stance.map Prod.snd,
        requiredCluster stance.length ≤ (stance.map Prod.snd).count label)

namespace PanelTables

variable (p : PanelTables)

theorem stanceStrength_eq_strong_iff (stance : List (ℕ × Text)) :
    stanceStrength stance = .strong ↔ MajorityGroup stance := by
  rw [stanceStrength, MajorityGroup]
  by_cases hlength : stance.length = 1
  · simp [hlength]
  · simp only [hlength, if_false, Bool.or_eq_true, decide_eq_true_eq, List.any_eq_true]
    split_ifs with hgroup
    · exact ⟨fun _ => ⟨hlength, hgroup⟩, fun _ => rfl⟩
    · exact ⟨fun h => absurd h (by decide), fun h => absurd h.2 hgroup⟩

/-- What a round shows of the scored slots. -/
def roundEvidence (scored : List ℕ) (output : DebateRound) : Option (List (ℕ × Text)) :=
  output.panelStance.bind (p.stanceEvidence scored)

/-- What the latest admissible of some rounds shows of the scored slots. -/
def latestEvidence (scored : List ℕ) (outputs : List DebateRound) : Option (List (ℕ × Text)) :=
  (latestAdmissible outputs).bind (p.roundEvidence scored)

/-- The scored answers' vocabulary overlaps, or the critics' words report convergence. -/
def wordsConverge (answers : List PanelAnswer) (outputs : List DebateRound) : Prop :=
  p.hasStrongOverlap ((answers.filter p.countsAsEvidence).map fun answer =>
      p.stripOwnCaveat answer.answerText)
    ∨ p.debateSignalsConvergence outputs

/-- The evidence is strong: a stance's when there is one, else that of the words. -/
def StrongEvidence (evidence : Option (List (ℕ × Text))) (words : Prop) : Prop :=
  match evidence with
  | some stance => MajorityGroup stance
  | none => words

theorem usableStance_eq {answers : List PanelAnswer} (h : p.scoredSlotNumbers answers ≠ [])
    (outputs : List DebateRound) :
    p.usableStance answers outputs = p.latestEvidence (p.scoredSlotNumbers answers) outputs :=
  if_neg h

theorem panelAgreement_eq_agreed_iff (answers : List PanelAnswer) (outputs : List DebateRound) :
    p.panelAgreement answers outputs = .agreed
      ↔ ∃ stance, p.usableStance answers outputs = some stance ∧ OneGroup stance := by
  rw [panelAgreement]
  cases husable : p.usableStance answers outputs with
  | none => simp
  | some stance =>
      by_cases hshort : stance.length < 2
      · simp [OneGroup, hshort, Nat.not_le.mpr hshort]
      · simp [OneGroup, hshort, Nat.not_lt.mp hshort]

theorem vocabularyStrength_eq_strong_iff (answers : List PanelAnswer)
    (outputs : List DebateRound) :
    p.vocabularyStrength ((answers.filter p.countsAsEvidence).map fun answer =>
        p.stripOwnCaveat answer.answerText) outputs = .strong
      ↔ p.wordsConverge answers outputs := by
  rw [vocabularyStrength, wordsConverge]
  split_ifs with hoverlap hconverge hpolar
  · simp [hoverlap]
  · simp [hconverge]
  · simp [hoverlap, hconverge]
  · simp [hoverlap, hconverge]

theorem scoredSlotNumbers_eq_nil_iff (answers : List PanelAnswer) :
    p.scoredSlotNumbers answers = [] ↔ answers.filter p.countsAsEvidence = [] := by
  rw [scoredSlotNumbers, List.dedup_eq_nil, List.map_eq_nil_iff]

theorem computeConsensusStrength_eq_strong_iff (answers : List PanelAnswer)
    (outputs : List DebateRound) :
    p.computeConsensusStrength answers outputs = .strong
      ↔ 2 ≤ (answers.filter p.countsAsEvidence).length
        ∧ StrongEvidence (p.usableStance answers outputs) (p.wordsConverge answers outputs) := by
  rw [computeConsensusStrength]
  by_cases hnone : answers.filter p.countsAsEvidence = []
  · simp [hnone]
  by_cases hone : (answers.filter p.countsAsEvidence).length = 1
  · simp [hnone, hone]
  have htwo : 2 ≤ (answers.filter p.countsAsEvidence).length := by
    have := List.length_pos_of_ne_nil hnone
    omega
  simp only [hnone, hone, htwo, if_false, true_and]
  cases p.usableStance answers outputs with
  | none => exact p.vocabularyStrength_eq_strong_iff answers outputs
  | some stance => exact stanceStrength_eq_strong_iff stance

theorem debateSignalsConvergence_append (left right : List DebateRound) :
    p.debateSignalsConvergence (left ++ right)
      = (p.debateSignalsConvergence left || p.debateSignalsConvergence right) :=
  List.any_append

/-- A round and what the loss of some of its critics makes of it. -/
structure Shrinks (scored : List ℕ) (round lost : DebateRound) : Prop where
  roundNumber : lost.roundNumber = round.roundNumber
  admissible : stanceIsAdmissible round = round.panelStance.isSome
  admissibleLost : stanceIsAdmissible lost = lost.panelStance.isSome
  stance : lost.panelStance.isSome → round.panelStance.isSome
  evidence : ∀ stance, p.roundEvidence scored lost = some stance →
    p.roundEvidence scored round = some stance
  convergence : p.debateSignalsConvergence [lost] → p.debateSignalsConvergence [round]

/-- The round's stance is what the verdict rests on, and after the loss it shows nothing. -/
def FallsBack (scored : List ℕ) (later : List DebateRound) (round lost : DebateRound) : Prop :=
  latestAdmissible later = none ∧ round.panelStance.isSome ∧ p.roundEvidence scored lost = none

/-- What the earlier rounds show, which is read only when the lost round has no stance at all. -/
def fallbackEvidence (scored : List ℕ) (earlier : List DebateRound) (lost : DebateRound) :
    Option (List (ℕ × Text)) :=
  if lost.panelStance = none then p.latestEvidence scored earlier else none

/-- The loss makes the panel agreed: an earlier round shows one group where the round did not. -/
def RaisesAgreement (answers : List PanelAnswer) (earlier later : List DebateRound)
    (round lost : DebateRound) : Prop :=
  let scored := p.scoredSlotNumbers answers
  p.FallsBack scored later round lost
    ∧ (∃ stance, p.fallbackEvidence scored earlier lost = some stance ∧ OneGroup stance)
    ∧ ¬ ∃ stance, p.roundEvidence scored round = some stance ∧ OneGroup stance

/-- The loss makes the consensus strong: what is fallen back on is strong where the round was
not. -/
def RaisesStrength (answers : List PanelAnswer) (earlier later : List DebateRound)
    (round lost : DebateRound) : Prop :=
  let scored := p.scoredSlotNumbers answers
  2 ≤ (answers.filter p.countsAsEvidence).length
    ∧ p.FallsBack scored later round lost
    ∧ StrongEvidence (p.fallbackEvidence scored earlier lost)
        (p.wordsConverge answers (earlier ++ lost :: later))
    ∧ ¬ StrongEvidence (p.roundEvidence scored round)
        (p.wordsConverge answers (earlier ++ round :: later))

/-- The verdict over some rounds is not above the verdict over others. -/
def NotRaised (answers : List PanelAnswer) (before after : List DebateRound) : Prop :=
  (p.panelAgreement answers after = .agreed → p.panelAgreement answers before = .agreed)
    ∧ (p.computeConsensusStrength answers after = .strong →
        p.computeConsensusStrength answers before = .strong)

theorem stanceEvidence_nil {positions : List SlotPosition} {stance : List (ℕ × Text)}
    (h : p.stanceEvidence [] positions = some stance) : stance = [] := by
  rw [stanceEvidence] at h
  split_ifs at h
  rw [← Option.some.inj h, List.filter_eq_nil_iff]
  intro entry _
  simp

theorem agreed_iff (answers : List PanelAnswer) (outputs : List DebateRound) :
    p.panelAgreement answers outputs = .agreed
      ↔ ∃ stance, p.latestEvidence (p.scoredSlotNumbers answers) outputs = some stance
        ∧ OneGroup stance := by
  rw [panelAgreement_eq_agreed_iff]
  by_cases hscored : p.scoredSlotNumbers answers = []
  · rw [usableStance, if_pos hscored, hscored]
    constructor
    · rintro ⟨stance, hstance, -⟩
      exact absurd hstance (Option.some_ne_none stance).symm
    · rintro ⟨stance, hstance, hlength, -⟩
      obtain ⟨latest, -, hround⟩ := Option.bind_eq_some_iff.mp hstance
      obtain ⟨positions, -, hevidence⟩ := Option.bind_eq_some_iff.mp hround
      rw [p.stanceEvidence_nil hevidence] at hlength
      exact absurd hlength (by decide)
  · rw [p.usableStance_eq hscored]

theorem strong_iff (answers : List PanelAnswer) (outputs : List DebateRound) :
    p.computeConsensusStrength answers outputs = .strong
      ↔ 2 ≤ (answers.filter p.countsAsEvidence).length
        ∧ StrongEvidence (p.latestEvidence (p.scoredSlotNumbers answers) outputs)
            (p.wordsConverge answers outputs) := by
  rw [computeConsensusStrength_eq_strong_iff, and_congr_right_iff]
  intro htwo
  have hscored : p.scoredSlotNumbers answers ≠ [] := by
    intro hnil
    rw [(p.scoredSlotNumbers_eq_nil_iff answers).mp hnil] at htwo
    exact absurd htwo (by decide)
  rw [p.usableStance_eq hscored]

/-- The rounds' numbers grow from the earlier ones over a round to the later ones. -/
def Ordered (earlier : List DebateRound) (round : DebateRound) (later : List DebateRound) : Prop :=
  (earlier ++ round :: later).Pairwise fun left right => left.roundNumber < right.roundNumber

theorem latestEvidence_append {scored : List ℕ} {earlier later : List DebateRound}
    {round : DebateRound} (horder : Ordered earlier round later)
    (hadmissible : stanceIsAdmissible round = round.panelStance.isSome) :
    p.latestEvidence scored (earlier ++ round :: later)
      = match latestAdmissible later with
        | some latest => p.roundEvidence scored latest
        | none =>
            if round.panelStance.isSome then p.roundEvidence scored round
            else p.latestEvidence scored earlier := by
  obtain ⟨-, hright, hacross⟩ := List.pairwise_append.mp horder
  have hlater := (List.pairwise_cons.mp hright).1
  have hsplit : latestAdmissible (round :: later)
      = (latestAdmissible later).or (latestAdmissible [round]) := by
    rw [← latestAdmissible_append, List.singleton_append]
    intro one hone other hother
    rw [List.mem_singleton.mp hone]
    exact hlater other hother
  rw [latestEvidence, latestAdmissible_append hacross, hsplit, latestAdmissible_singleton,
    hadmissible]
  cases latestAdmissible later with
  | some latest => rfl
  | none => cases round.panelStance.isSome <;> rfl

variable {p}

theorem Shrinks.ordered {scored : List ℕ} {earlier later : List DebateRound}
    {round lost : DebateRound} (h : p.Shrinks scored round lost)
    (horder : Ordered earlier round later) : Ordered earlier lost later := by
  rw [Ordered, List.pairwise_append, List.pairwise_cons] at horder ⊢
  obtain ⟨hearlier, ⟨hround, hlater⟩, hacross⟩ := horder
  refine ⟨hearlier, ⟨fun other hother => ?_, hlater⟩, fun one hone other hother => ?_⟩
  · rw [h.roundNumber]
    exact hround other hother
  · rcases List.mem_cons.mp hother with rfl | hother
    · rw [h.roundNumber]
      exact hacross one hone round List.mem_cons_self
    · exact hacross one hone other (List.mem_cons_of_mem _ hother)

/-- Where the code does not fall back, the evidence is the same after the loss. -/
theorem Shrinks.latestEvidence_eq {scored : List ℕ} {earlier later : List DebateRound}
    {round lost : DebateRound} (h : p.Shrinks scored round lost)
    (horder : Ordered earlier round later) (hkeeps : ¬ p.FallsBack scored later round lost) :
    p.latestEvidence scored (earlier ++ lost :: later)
      = p.latestEvidence scored (earlier ++ round :: later) := by
  rw [p.latestEvidence_append (h.ordered horder) h.admissibleLost,
    p.latestEvidence_append horder h.admissible]
  cases hlater : latestAdmissible later with
  | some latest => rfl
  | none =>
      by_cases hround : round.panelStance.isSome
      · obtain ⟨stance, hstance⟩ := Option.ne_none_iff_exists'.mp
          fun hnone => hkeeps ⟨hlater, hround, hnone⟩
        obtain ⟨positions, hpositions, -⟩ := Option.bind_eq_some_iff.mp hstance
        have hlost : lost.panelStance.isSome := by rw [hpositions]; rfl
        simp only [hround, hlost, if_true, hstance, h.evidence stance hstance]
      · have hlost : ¬ lost.panelStance.isSome := fun hlost => hround (h.stance hlost)
        simp only [if_neg hround, if_neg hlost]

/-- Where it falls back, the round's evidence is replaced by the earlier rounds'. -/
theorem Shrinks.latestEvidence_fallsBack {scored : List ℕ} {earlier later : List DebateRound}
    {round lost : DebateRound} (h : p.Shrinks scored round lost)
    (horder : Ordered earlier round later) (hfalls : p.FallsBack scored later round lost) :
    p.latestEvidence scored (earlier ++ round :: later) = p.roundEvidence scored round
      ∧ p.latestEvidence scored (earlier ++ lost :: later)
        = p.fallbackEvidence scored earlier lost := by
  obtain ⟨hlater, hround, hlost⟩ := hfalls
  rw [p.latestEvidence_append (h.ordered horder) h.admissibleLost,
    p.latestEvidence_append horder h.admissible, hlater]
  refine ⟨if_pos hround, ?_⟩
  rw [fallbackEvidence]
  cases hstance : lost.panelStance with
  | none => rfl
  | some positions => exact hlost

theorem Shrinks.wordsConverge {scored : List ℕ} {earlier later : List DebateRound}
    {round lost : DebateRound} (h : p.Shrinks scored round lost) {answers : List PanelAnswer}
    (hwords : p.wordsConverge answers (earlier ++ lost :: later)) :
    p.wordsConverge answers (earlier ++ round :: later) := by
  have hsplit : ∀ middle, p.debateSignalsConvergence (earlier ++ middle :: later)
      = (p.debateSignalsConvergence earlier || (p.debateSignalsConvergence [middle]
          || p.debateSignalsConvergence later)) := by
    intro middle
    rw [debateSignalsConvergence_append, ← List.singleton_append, debateSignalsConvergence_append]
  refine hwords.imp_right fun hconverge => ?_
  rw [hsplit, Bool.or_eq_true, Bool.or_eq_true] at hconverge ⊢
  exact hconverge.imp_right fun hrest => hrest.imp_left h.convergence

/-- The verdict is raised exactly where the code falls back on more than the round had shown. -/
theorem Shrinks.notRaised_iff {answers : List PanelAnswer} {earlier later : List DebateRound}
    {round lost : DebateRound} (h : p.Shrinks (p.scoredSlotNumbers answers) round lost)
    (horder : Ordered earlier round later) :
    p.NotRaised answers (earlier ++ round :: later) (earlier ++ lost :: later)
      ↔ ¬ p.RaisesAgreement answers earlier later round lost
        ∧ ¬ p.RaisesStrength answers earlier later round lost := by
  rw [NotRaised, agreed_iff, agreed_iff, strong_iff, strong_iff]
  by_cases hfalls : p.FallsBack (p.scoredSlotNumbers answers) later round lost
  · obtain ⟨hbefore, hafter⟩ := h.latestEvidence_fallsBack horder hfalls
    simp only [hbefore, hafter, RaisesAgreement, RaisesStrength, hfalls, true_and, not_and, not_not,
      and_imp]
    exact and_congr Iff.rfl ⟨fun hkeeps htwo hstrong => (hkeeps htwo hstrong).2,
      fun hkeeps htwo hstrong => ⟨htwo, hkeeps htwo hstrong⟩⟩
  · rw [h.latestEvidence_eq horder hfalls]
    refine iff_of_true ⟨id, fun ⟨htwo, hstrong⟩ => ⟨htwo, ?_⟩⟩
      ⟨fun hraises => hfalls hraises.1, fun hraises => hfalls hraises.2.1⟩
    cases hevidence : p.latestEvidence (p.scoredSlotNumbers answers)
        (earlier ++ round :: later) with
    | some stance =>
        rw [hevidence] at hstrong
        exact hstrong
    | none =>
        rw [hevidence] at hstrong
        exact h.wordsConverge hstrong

end PanelTables

end Quorum
