import Quorum.PanelVerdict

/-! A peer debate that loses critics of one round: what the loss leaves of the round, and when it
raises the verdict. -/

namespace Quorum.PanelTables

variable {p : PanelTables}

/-- The same debate, except that in the given round some of the critics are lost. -/
inductive LosesInRound (p : PanelTables) : ℕ → PeerDebate → PeerDebate → Prop
  | one {critics lossy : List (PanelAnswer × CriticOutcome)}
      {roundTwo : Option (List (PanelAnswer × CriticOutcome))}
        (h : p.LosesCritics 1 critics lossy) :
      LosesInRound p 1 { roundOne := critics, roundTwo } { roundOne := lossy, roundTwo }
  | two {roundOne critics lossy : List (PanelAnswer × CriticOutcome)}
      (h : p.LosesCritics 2 critics lossy) :
      LosesInRound p 2 { roundOne, roundTwo := some critics } { roundOne, roundTwo := some lossy }

theorem mapM_eq_nil_iff {α β : Type} {f : α → Option β} {items : List α} {values : List β}
    (h : items.mapM f = some values) : values = [] ↔ items = [] := by
  cases items with
  | nil =>
      rw [List.mapM_nil] at h
      simp [← Option.some.inj h]
  | cons item items =>
      rw [List.mapM_cons] at h
      obtain ⟨_, _, hrest⟩ := Option.bind_eq_some_iff.mp h
      obtain ⟨_, _, heq⟩ := Option.bind_eq_some_iff.mp hrest
      simp [← Option.some.inj heq]

/-- A stance is derived exactly when the pooled positions can be stored, and it is them. -/
theorem derivePeerStance_eq_ok {critiques : List SlotCritique} {eligible : ℕ}
    (hpos : eligible ≠ 0) {stance : Option (List SlotPosition)}
    (h : p.derivePeerStance critiques eligible = .ok stance) :
    ∃ positions, ((pooledPositions eligible (p.stanceVotes critiques)).mapM fun position =>
        p.slotPosition position.1 position.2) = some positions
      ∧ (stance = none ↔ pooledPositions eligible (p.stanceVotes critiques) = []) := by
  rw [derivePeerStance, if_neg hpos] at h
  split at h
  · exact absurd h (by simp)
  · next hmap => exact ⟨[], hmap, by simp [← Except.ok.inj h, ← mapM_eq_nil_iff hmap]⟩
  · next positions hne hmap =>
      exact ⟨positions, hmap, by simpa [← Except.ok.inj h, ← mapM_eq_nil_iff hmap] using hne⟩

theorem derivePeerStance_of_mapM {critiques : List SlotCritique} {eligible : ℕ}
    {positions : List SlotPosition}
    (h : ((pooledPositions eligible (p.stanceVotes critiques)).mapM fun position =>
      p.slotPosition position.1 position.2) = some positions) :
    ∃ stance, p.derivePeerStance critiques eligible = .ok stance := by
  rw [derivePeerStance, h]
  split_ifs
  · exact ⟨none, rfl⟩
  · cases positions with
    | nil => exact ⟨none, rfl⟩
    | cons first rest => exact ⟨some (first :: rest), rfl⟩

theorem peerRound_of_derivePeerStance {roundNumber : ℕ} (templated : Text)
    {critics : List (PanelAnswer × CriticOutcome)} {stance : Option (List SlotPosition)}
    (h : p.derivePeerStance (critics.filterMap (p.critiqueOf roundNumber)) critics.length
      = .ok stance) :
    ∃ output, p.peerRound roundNumber templated critics = .ok output := by
  rw [peerRound]
  split
  · exact ⟨_, rfl⟩
  · rw [h]
    exact ⟨_, rfl⟩

theorem peerRound_roundNumber {roundNumber : ℕ} {templated : Text}
    {critics : List (PanelAnswer × CriticOutcome)} {output : DebateRound}
    (h : p.peerRound roundNumber templated critics = .ok output) :
    output.roundNumber = roundNumber := by
  rcases peerRound_eq_ok h with ⟨-, rfl⟩ | ⟨-, -, hnumber, -⟩
  · rfl
  · exact hnumber

theorem peerRound_admissible {roundNumber : ℕ} {templated : Text}
    {critics : List (PanelAnswer × CriticOutcome)} {output : DebateRound}
    (h : p.peerRound roundNumber templated critics = .ok output) :
    stanceIsAdmissible output = output.panelStance.isSome := by
  have hshape := (peerRound_stance h).2
  rw [stanceIsAdmissible]
  cases hstance : output.panelStance with
  | none => rfl
  | some positions => simp [hshape (by rw [hstance]; rfl)]

/-- A peer round reports convergence when a strict majority of its eligible critics do. -/
theorem peerRound_signals_iff {roundNumber : ℕ} {templated : Text}
    {critics : List (PanelAnswer × CriticOutcome)} {output : DebateRound}
    (h : p.peerRound roundNumber templated critics = .ok output) :
    p.debateSignalsConvergence [output]
      ↔ majorityOf critics.length
          ≤ p.convergingCritics (critics.filterMap (p.critiqueOf roundNumber)) := by
  rcases peerRound_eq_ok h with ⟨hnone, rfl⟩ | ⟨hcritics, -, -, hshape, hcritiques, hcount⟩
  · have hzero : p.convergingCritics [] = 0 := rfl
    rw [hnone, hzero, majorityOf]
    simp [debateSignalsConvergence, templatedRound]
  · have hpos := List.length_pos_of_ne_nil hcritics
    simp [debateSignalsConvergence, peerRoundSignalsConvergence, hshape, hcritiques, hcount, hpos]

theorem roundEvidence_eq {scored : List ℕ} (hstable : p.LabelsStable) {roundNumber : ℕ}
    {templated : Text} {critics : List (PanelAnswer × CriticOutcome)} {output : DebateRound}
    (h : p.peerRound roundNumber templated critics = .ok output)
    (hstance : output.panelStance.isSome) :
    p.roundEvidence scored output = evidenceOf scored (pooledPositions critics.length
      (p.stanceVotes (critics.filterMap (p.critiqueOf roundNumber)))) := by
  obtain ⟨positions, hpositions⟩ := Option.isSome_iff_exists.mp hstance
  have hderive := (peerRound_stance h).1
  rw [hpositions] at hderive
  have hmapping := mapping_of_derivePeerStance hstable
    (length_filterMap_critiqueOf_le roundNumber critics) hderive
  have hitems : (Dict.ofList (p.positionLabels positions)).items = p.positionLabels positions :=
    Dict.items_ofList (by rw [positionLabels, hmapping]; exact pooledPositions_slots_nodup _ _)
  rw [roundEvidence, hpositions, Option.bind_some, stanceEvidence, Dict.keys, hitems,
    positionLabels, hmapping, evidenceOf]

/-- After the loss a stored round has a stance only where something is still pooled. -/
theorem LosesCritics.stance_isSome {roundNumber : ℕ}
    {critics lossy : List (PanelAnswer × CriticOutcome)}
    (h : p.LosesCritics roundNumber critics lossy) {templated : Text} {round lost : DebateRound}
    (hround : p.peerRound roundNumber templated critics = .ok round)
    (hlost : p.peerRound roundNumber templated lossy = .ok lost)
    (hstance : lost.panelStance.isSome) : round.panelStance.isSome := by
  by_cases hnone : critics = []
  · subst hnone
    rw [List.forall₂_nil_left_iff.mp h] at hlost
    rw [← Except.ok.inj (hlost.symm.trans hround)]
    exact hstance
  have hpos : critics.length ≠ 0 := by simpa using hnone
  have hpos' : lossy.length ≠ 0 := by rwa [← h.length_eq]
  obtain ⟨_, -, hround⟩ := derivePeerStance_eq_ok hpos (peerRound_stance hround).1
  obtain ⟨_, -, hlost⟩ := derivePeerStance_eq_ok hpos' (peerRound_stance hlost).1
  rw [← Option.not_isSome_iff_eq_none] at hround hlost
  by_contra hempty
  have hsub := h.pooledPositions_sublist
  rw [hround.mp hempty] at hsub
  exact hlost.mpr (List.sublist_nil.mp hsub) hstance

/-- The round can still be stored after the loss, and it shows no more than before. -/
theorem LosesCritics.exists_shrinks (hstable : p.LabelsStable) {roundNumber : ℕ}
    {critics lossy : List (PanelAnswer × CriticOutcome)}
    (h : p.LosesCritics roundNumber critics lossy) {templated : Text} {round : DebateRound}
    (hround : p.peerRound roundNumber templated critics = .ok round) (scored : List ℕ) :
    ∃ lost, p.peerRound roundNumber templated lossy = .ok lost
      ∧ p.Shrinks scored round lost := by
  have hexists : ∃ lost, p.peerRound roundNumber templated lossy = .ok lost := by
    by_cases hnone : critics = []
    · subst hnone
      rw [List.forall₂_nil_left_iff.mp h]
      exact ⟨round, hround⟩
    have hpos : critics.length ≠ 0 := by simpa using hnone
    obtain ⟨_, hmap, -⟩ := derivePeerStance_eq_ok hpos (peerRound_stance hround).1
    obtain ⟨_, hfound⟩ := mapM_some_of_sublist h.pooledPositions_sublist hmap
    obtain ⟨_, hderive⟩ := derivePeerStance_of_mapM hfound
    exact peerRound_of_derivePeerStance templated hderive
  obtain ⟨lost, hlost⟩ := hexists
  have hstance := h.stance_isSome hround hlost
  refine ⟨lost, hlost,
    { roundNumber := (peerRound_roundNumber hlost).trans (peerRound_roundNumber hround).symm
      admissible := peerRound_admissible hround
      admissibleLost := peerRound_admissible hlost
      stance := hstance
      evidence := fun stance hevidence => ?_
      convergence := fun hconverge => ?_ }⟩
  · have hsome : lost.panelStance.isSome := by
      obtain ⟨positions, hpositions, -⟩ := Option.bind_eq_some_iff.mp hevidence
      rw [hpositions]
      rfl
    rw [roundEvidence_eq hstable hlost hsome] at hevidence
    rw [roundEvidence_eq hstable hround (hstance hsome)]
    exact h.evidenceOf_eq hevidence
  · rw [peerRound_signals_iff hlost] at hconverge
    rw [peerRound_signals_iff hround, h.length_eq]
    refine hconverge.trans (h.countP_le fun critique hcounts => ?_)
    rw [Bool.and_eq_true, decide_eq_true_eq] at hcounts
    exact hcounts.1

theorem runDebateRounds_eq_ok {templated : ℕ → Text} {debate : PeerDebate}
    {outputs : List DebateRound} (h : p.runDebateRounds templated debate = .ok outputs) :
    ∃ one, p.peerRound 1 (templated 1) debate.roundOne = .ok one
      ∧ match debate.roundTwo with
        | none => outputs = [one]
        | some critics =>
            ∃ two, p.peerRound 2 (templated 2) critics = .ok two ∧ outputs = [one, two] := by
  rw [runDebateRounds] at h
  cases hone : p.peerRound 1 (templated 1) debate.roundOne with
  | error message =>
      rw [hone] at h
      exact absurd h (by simp [Bind.bind, Except.bind])
  | ok one =>
      rw [hone] at h
      refine ⟨one, rfl, ?_⟩
      cases htwo : debate.roundTwo with
      | none =>
          rw [htwo] at h
          exact (Except.ok.inj h).symm
      | some critics =>
          rw [htwo] at h
          cases hround : p.peerRound 2 (templated 2) critics with
          | error message =>
              simp [hround, Bind.bind, Except.bind] at h
          | ok two =>
              simp only [hround, Bind.bind, Except.bind] at h
              exact ⟨two, hround, (Except.ok.inj h).symm⟩

theorem runDebateRounds_of_one {templated : ℕ → Text} {debate : PeerDebate} {one : DebateRound}
    (hone : p.peerRound 1 (templated 1) debate.roundOne = .ok one)
    (htwo : debate.roundTwo = none) : p.runDebateRounds templated debate = .ok [one] := by
  rw [runDebateRounds, hone, htwo]
  rfl

theorem runDebateRounds_of_two {templated : ℕ → Text} {debate : PeerDebate}
    {critics : List (PanelAnswer × CriticOutcome)} {one two : DebateRound}
    (hone : p.peerRound 1 (templated 1) debate.roundOne = .ok one)
    (hcritics : debate.roundTwo = some critics)
    (htwo : p.peerRound 2 (templated 2) critics = .ok two) :
    p.runDebateRounds templated debate = .ok [one, two] := by
  rw [runDebateRounds, hone, hcritics]
  simp only [Bind.bind, Except.bind, htwo]
  rfl

theorem ordered_singleton (round : DebateRound) : Ordered [] round [] :=
  List.pairwise_singleton _ _

theorem ordered_pair {one two : DebateRound} (hone : one.roundNumber = 1)
    (htwo : two.roundNumber = 2) : Ordered [] one [two] ∧ Ordered [one] two [] := by
  have hlt : one.roundNumber < two.roundNumber := by omega
  have hpair : [one, two].Pairwise fun left right => left.roundNumber < right.roundNumber := by
    simpa using hlt
  exact ⟨hpair, hpair⟩

/-- Losing critics of one round of a peer debate leaves the verdict no higher, except exactly where
the round's stance, which the verdict rested on, no longer covers the scored slots and the evidence
fallen back on claims more than that stance did. -/
theorem loss_not_raised_iff (p : PanelTables) (hstable : p.LabelsStable)
    (answers : List PanelAnswer) (templated : ℕ → Text) (roundNumber : ℕ)
    (debate lossy : PeerDebate) (hloses : p.LosesInRound roundNumber debate lossy)
    (before : List DebateRound) (hbefore : p.runDebateRounds templated debate = .ok before) :
    ∃ after round lost, p.runDebateRounds templated lossy = .ok after
      ∧ before[roundNumber - 1]? = some round ∧ after[roundNumber - 1]? = some lost
      ∧ (p.NotRaised answers before after
        ↔ ¬ p.RaisesAgreement answers (before.take (roundNumber - 1)) (before.drop roundNumber)
              round lost
          ∧ ¬ p.RaisesStrength answers (before.take (roundNumber - 1)) (before.drop roundNumber)
              round lost) := by
  obtain ⟨one, hone, hrest⟩ := runDebateRounds_eq_ok hbefore
  cases hloses with
  | @one critics lossy roundTwo h =>
      obtain ⟨lost, hlost, hshrinks⟩ := h.exists_shrinks hstable hone (p.scoredSlotNumbers answers)
      cases roundTwo with
      | none =>
          have hrounds : before = [one] := hrest
          subst hrounds
          exact ⟨[lost], one, lost, runDebateRounds_of_one hlost rfl, rfl, rfl,
            hshrinks.notRaised_iff (ordered_singleton one)⟩
      | some critics' =>
          obtain ⟨two, htwo, hrounds⟩ := hrest
          subst hrounds
          have horder := (ordered_pair (peerRound_roundNumber hone) (peerRound_roundNumber htwo)).1
          exact ⟨[lost, two], one, lost, runDebateRounds_of_two hlost rfl htwo, rfl, rfl,
            hshrinks.notRaised_iff horder⟩
  | @two roundOne critics lossy h =>
      obtain ⟨two, htwo, hrounds⟩ := hrest
      subst hrounds
      obtain ⟨lost, hlost, hshrinks⟩ := h.exists_shrinks hstable htwo (p.scoredSlotNumbers answers)
      have horder := (ordered_pair (peerRound_roundNumber hone) (peerRound_roundNumber htwo)).2
      exact ⟨[one, lost], two, lost, runDebateRounds_of_two hone rfl hlost, rfl, rfl,
        hshrinks.notRaised_iff horder⟩

/-- Three critics agree in the first round; in the second two of them set every slot apart and the
third does not answer. -/
def partingDebate : PeerDebate :=
  { roundOne := [envelopeCritic 1 ('a', 'a', 'a'), envelopeCritic 2 ('a', 'a', 'a'),
      envelopeCritic 3 ('a', 'a', 'a')]
    roundTwo := some [envelopeCritic 1 ('a', 'b', 'c'), envelopeCritic 2 ('a', 'b', 'c'),
      (slotAnswer 3, .dispatched none)] }

/-- The same debate, with the second critic cancelled before its second call. -/
def partingDebateLossy : PeerDebate :=
  { partingDebate with
    roundTwo := some [envelopeCritic 1 ('a', 'b', 'c'), (slotAnswer 2, .undispatched),
      (slotAnswer 3, .dispatched none)] }

theorem partingDebate_loses :
    asciiPanelTables.LosesInRound 2 partingDebate partingDebateLossy := by
  refine LosesInRound.two (List.Forall₂.cons ⟨rfl, Or.inl rfl⟩ (List.Forall₂.cons ⟨rfl, Or.inr ?_⟩
    (List.Forall₂.cons ⟨rfl, Or.inl rfl⟩ List.Forall₂.nil)))
  intro critique hcritique
  exact absurd hcritique (Option.some_ne_none critique).symm

/-- The agreement and the strength that a debate's rounds come to. -/
def verdictOf (p : PanelTables) (answers : List PanelAnswer) (debate : PeerDebate) :
    Option (PanelAgreement × ConsensusStrength) :=
  (p.runDebateRounds (fun _ => []) debate).toOption.map fun outputs =>
    (p.panelAgreement answers outputs, p.computeConsensusStrength answers outputs)

theorem verdictOf_eq_some {answers : List PanelAnswer} {debate : PeerDebate}
    {verdict : PanelAgreement × ConsensusStrength}
    (h : p.verdictOf answers debate = some verdict) :
    ∃ outputs, p.runDebateRounds (fun _ => []) debate = .ok outputs
      ∧ p.panelAgreement answers outputs = verdict.1
      ∧ p.computeConsensusStrength answers outputs = verdict.2 := by
  obtain ⟨outputs, houtputs, rfl⟩ := Option.map_eq_some_iff.mp h
  exact ⟨outputs, eq_ok_of_toOption houtputs, rfl, rfl⟩

/-- One critic lost turns a split panel into an agreed one, and divided consensus into strong. -/
theorem partingDebate_raised :
    asciiPanelTables.LosesInRound 2 partingDebate partingDebateLossy
      ∧ ∃ before after,
        asciiPanelTables.runDebateRounds (fun _ => []) partingDebate = .ok before
        ∧ asciiPanelTables.runDebateRounds (fun _ => []) partingDebateLossy = .ok after
        ∧ ¬ asciiPanelTables.NotRaised [slotAnswer 1, slotAnswer 2, slotAnswer 3] before after
        ∧ asciiPanelTables.panelAgreement [slotAnswer 1, slotAnswer 2, slotAnswer 3] before = .split
        ∧ asciiPanelTables.panelAgreement [slotAnswer 1, slotAnswer 2, slotAnswer 3] after
            = .agreed
        ∧ asciiPanelTables.computeConsensusStrength [slotAnswer 1, slotAnswer 2, slotAnswer 3]
            before = .divided
        ∧ asciiPanelTables.computeConsensusStrength [slotAnswer 1, slotAnswer 2, slotAnswer 3]
            after = .strong := by
  have hverdict : asciiPanelTables.verdictOf [slotAnswer 1,
      slotAnswer 2, slotAnswer 3] partingDebate
      = some (.split, .divided) := by
    decide +kernel
  have hverdict' : asciiPanelTables.verdictOf [slotAnswer 1, slotAnswer 2, slotAnswer 3]
      partingDebateLossy = some (.agreed, .strong) := by
    decide +kernel
  obtain ⟨before, hbefore, hsplit, hdivided⟩ := verdictOf_eq_some hverdict
  obtain ⟨after, hafter, hagreed, hstrong⟩ := verdictOf_eq_some hverdict'
  refine ⟨partingDebate_loses, before, after, hbefore, hafter, fun hkeeps => ?_, hsplit, hagreed,
    hdivided, hstrong⟩
  have habove := hkeeps.1 hagreed
  rw [hsplit] at habove
  exact absurd habove (by decide)

theorem loss_not_raised_iff_parting :
    ∃ before after round lost,
      asciiPanelTables.runDebateRounds (fun _ => []) partingDebate = .ok before
      ∧ asciiPanelTables.runDebateRounds (fun _ => []) partingDebateLossy = .ok after
      ∧ (asciiPanelTables.NotRaised [slotAnswer 1, slotAnswer 2, slotAnswer 3] before after
        ↔ ¬ asciiPanelTables.RaisesAgreement [slotAnswer 1, slotAnswer 2, slotAnswer 3]
              (before.take 1) (before.drop 2) round lost
          ∧ ¬ asciiPanelTables.RaisesStrength [slotAnswer 1, slotAnswer 2, slotAnswer 3]
              (before.take 1) (before.drop 2) round lost) := by
  have hverdict : asciiPanelTables.verdictOf [slotAnswer 1,
      slotAnswer 2, slotAnswer 3] partingDebate
      = some (.split, .divided) := by
    decide +kernel
  obtain ⟨before, hbefore, -, -⟩ := verdictOf_eq_some hverdict
  obtain ⟨after, round, lost, hafter, -, -, hiff⟩ := loss_not_raised_iff asciiPanelTables
    asciiPanelTables_labelsStable [slotAnswer 1, slotAnswer 2, slotAnswer 3] (fun _ => []) 2
    partingDebate partingDebateLossy partingDebate_loses before hbefore
  exact ⟨before, after, round, lost, hbefore, hafter, hiff⟩

end Quorum.PanelTables
