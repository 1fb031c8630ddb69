import Quorum.PanelMajority

/-! What agreement of a peer panel rests on: each scored slot was placed in one and the same group
by a strict majority of the eligible critics, though not always by one and the same majority. -/

namespace Quorum.PanelTables

variable {p : PanelTables}

/-- The critic placed all the scored slots in one group. -/
def criticUnites (p : PanelTables) (roundNumber : ℕ) (scored : List ℕ)
    (critic : PanelAnswer × CriticOutcome) : Prop :=
  ∃ label, ∀ slot ∈ scored, p.criticPlaces roundNumber slot label critic

theorem length_filterMap_critiqueOf_le (roundNumber : ℕ)
    (critics : List (PanelAnswer × CriticOutcome)) :
    (critics.filterMap (p.critiqueOf roundNumber)).length ≤ critics.length :=
  List.length_filterMap_le _ _

theorem countP_filterMap_critiqueOf (roundNumber slot : ℕ) (label : Text)
    (critics : List (PanelAnswer × CriticOutcome)) :
    (critics.filterMap (p.critiqueOf roundNumber)).countP (p.places slot label)
      = critics.countP (p.criticPlaces roundNumber slot label) := by
  rw [List.countP_filterMap]
  congr 1
  funext critic
  rw [criticPlaces]
  cases p.critiqueOf roundNumber critic <;> rfl

/-- The positions of a derived stance read back as the pooled positions. -/
theorem mapping_of_derivePeerStance (hstable : p.LabelsStable) {critiques : List SlotCritique}
    {eligible : ℕ} (hle : critiques.length ≤ eligible) {positions : List SlotPosition}
    (h : p.derivePeerStance critiques eligible = .ok (some positions)) :
    positions.map (fun position => (position.slot, p.label position.group))
      = pooledPositions eligible (p.stanceVotes critiques) := by
  rw [derivePeerStance] at h
  split_ifs at h with hzero
  · exact absurd h (by simp)
  split at h
  · exact absurd h (by simp)
  · exact absurd h (by simp)
  · next found _ hmap =>
      rw [Except.ok.injEq, Option.some.injEq] at h
      subst h
      exact mapping_of_mapM hstable
        (fun _ hentry => p.exists_group_of_mem_pooledPositions hle hentry) hmap

/-- A round is the template's when no critic was asked; else it stores the critiques and the stance
derived from them. -/
theorem peerRound_eq_ok {roundNumber : ℕ} {templated : Text}
    {critics : List (PanelAnswer × CriticOutcome)} {output : DebateRound}
    (h : p.peerRound roundNumber templated critics = .ok output) :
    (critics.filterMap (p.critiqueOf roundNumber) = []
        ∧ output = templatedRound roundNumber templated)
      ∨ (critics ≠ []
        ∧ p.derivePeerStance (critics.filterMap (p.critiqueOf roundNumber)) critics.length
            = .ok output.panelStance
        ∧ output.roundNumber = roundNumber ∧ output.critiqueShape = .peer
        ∧ output.slotCritiques = critics.filterMap (p.critiqueOf roundNumber)
        ∧ output.eligibleCriticCount = critics.length) := by
  rw [peerRound] at h
  split at h
  · next hnone => exact Or.inl ⟨hnone, (Except.ok.inj h).symm⟩
  · next hsome =>
      have hcritics : critics ≠ [] := by
        rintro rfl
        exact hsome rfl
      cases hderive : p.derivePeerStance (critics.filterMap (p.critiqueOf roundNumber))
          critics.length with
      | error message =>
          rw [hderive] at h
          exact absurd h (by simp [Except.map])
      | ok stance =>
          rw [hderive] at h
          rw [← Except.ok.inj h]
          exact Or.inr ⟨hcritics, rfl, rfl, rfl, rfl, rfl⟩

theorem derivePeerStance_nil (eligible : ℕ) : p.derivePeerStance [] eligible = .ok none := by
  rw [derivePeerStance]
  split_ifs
  · rfl
  · have hvotes : ∀ slot, votesFor (p.stanceVotes []) slot = [] := fun _ => rfl
    have hpooled : pooledPositions eligible (p.stanceVotes []) = [] := by
      rw [pooledPositions, List.filterMap_eq_nil_iff]
      intro slot _
      rw [hvotes]
      rfl
    rw [hpooled, List.mapM_nil]
    rfl

/-- A round's stance is derived from the critics that were asked, and stands in a peer round
only. -/
theorem peerRound_stance {roundNumber : ℕ} {templated : Text}
    {critics : List (PanelAnswer × CriticOutcome)} {output : DebateRound}
    (h : p.peerRound roundNumber templated critics = .ok output) :
    p.derivePeerStance (critics.filterMap (p.critiqueOf roundNumber)) critics.length
        = .ok output.panelStance
      ∧ (output.panelStance.isSome → output.critiqueShape = .peer) := by
  rcases peerRound_eq_ok h with ⟨hnone, rfl⟩ | ⟨-, hderive, -, hshape, -, -⟩
  · rw [hnone, derivePeerStance_nil]
    exact ⟨rfl, fun hsome => absurd hsome (by simp [templatedRound])⟩
  · exact ⟨hderive, fun _ => hshape⟩

theorem scored_of_stanceEvidence {scored : List ℕ} {positions : List SlotPosition}
    {stance : List (ℕ × Text)} (h : p.stanceEvidence scored positions = some stance) {slot : ℕ}
    (hslot : slot ∈ scored) :
    ∃ label, (slot, label) ∈ stance
      ∧ (slot, label) ∈ positions.map fun position => (position.slot, p.label position.group) := by
  rw [stanceEvidence] at h
  split_ifs at h with hblank hcovers
  rw [List.all_eq_true] at hcovers
  have hmem := of_decide_eq_true (hcovers slot hslot)
  obtain ⟨⟨other, label⟩, hentry, rfl⟩ := List.mem_map.mp hmem
  rw [← Option.some.inj h]
  exact ⟨label, List.mem_filter.mpr ⟨hentry, decide_eq_true hslot⟩, Dict.mem_of_mem_ofList hentry⟩

theorem one_label_of_agreed {answers : List PanelAnswer} {outputs : List DebateRound}
    (h : p.panelAgreement answers outputs = .agreed) :
    ∃ stance label, p.usableStance answers outputs = some stance ∧ 2 ≤ stance.length
      ∧ ∀ entry ∈ stance, entry.2 = label := by
  rw [panelAgreement] at h
  split at h
  · exact absurd h (by decide)
  · next stance hstance =>
      split_ifs at h with hshort hone
      obtain ⟨label, hlabel⟩ := List.length_eq_one_iff.mp hone
      refine ⟨stance, label, hstance, Nat.not_lt.mp hshort, fun entry hentry => ?_⟩
      have hmem : entry.2 ∈ (stance.map Prod.snd).dedup :=
        List.mem_dedup.mpr (List.mem_map_of_mem hentry)
      rw [hlabel, List.mem_singleton] at hmem
      exact hmem

/-- The stance a reading rests on is the latest admissible round's. -/
theorem usableStance_eq_some {answers : List PanelAnswer} {outputs : List DebateRound}
    {stance : List (ℕ × Text)} (h : p.usableStance answers outputs = some stance) :
    ∃ latest positions, latestAdmissible outputs = some latest
      ∧ latest.panelStance = some positions
      ∧ p.stanceEvidence (p.scoredSlotNumbers answers) positions = some stance := by
  rw [usableStance] at h
  split_ifs at h
  obtain ⟨latest, hlatest, hrest⟩ := Option.bind_eq_some_iff.mp h
  obtain ⟨positions, hpositions, hevidence⟩ := Option.bind_eq_some_iff.mp hrest
  exact ⟨latest, positions, hlatest, hpositions, hevidence⟩

theorem scoredSlotNumbers_ne_nil {answers : List PanelAnswer} {outputs : List DebateRound}
    (h : p.panelAgreement answers outputs = .agreed) : p.scoredSlotNumbers answers ≠ [] := by
  obtain ⟨stance, -, hstance, -, -⟩ := one_label_of_agreed h
  intro hnone
  rw [usableStance, if_pos hnone] at hstance
  exact absurd hstance (Option.some_ne_none stance).symm

/-- Each scored slot of an agreed panel was placed in the same group by a strict majority. -/
theorem majority_places_of_agreed (hstable : p.LabelsStable) {answers : List PanelAnswer}
    {outputs : List DebateRound} {roundNumber : ℕ} {templated : Text}
    {critics : List (PanelAnswer × CriticOutcome)} {output : DebateRound}
    (hround : p.peerRound roundNumber templated critics = .ok output)
    (hlatest : latestAdmissible outputs = some output)
    (hagreed : p.panelAgreement answers outputs = .agreed) :
    ∃ label, ∀ slot ∈ p.scoredSlotNumbers answers,
      majorityOf critics.length ≤ critics.countP (p.criticPlaces roundNumber slot label) := by
  obtain ⟨stance, label, hstance, -, hone⟩ := one_label_of_agreed hagreed
  obtain ⟨latest, positions, hlatest', hpositions, hevidence⟩ := usableStance_eq_some hstance
  have heq : latest = output := Option.some.inj (hlatest'.symm.trans hlatest)
  have hle := length_filterMap_critiqueOf_le (p := p) roundNumber critics
  have hderive := (peerRound_stance hround).1
  rw [← heq, hpositions] at hderive
  refine ⟨label, fun slot hslot => ?_⟩
  obtain ⟨found, hfound, hpooled⟩ := scored_of_stanceEvidence hevidence hslot
  rw [mapping_of_derivePeerStance hstable hle hderive] at hpooled
  have hmajority := ((p.mem_pooledPositions_iff hle slot found).mp hpooled).2.1
  rw [← hone _ hfound, ← countP_filterMap_critiqueOf]
  exact hmajority

/-- With at most two eligible critics a strict majority is all of them. -/
theorem all_places_of_majority {roundNumber : ℕ} {label : Text} {scored : List ℕ}
    {critics : List (PanelAnswer × CriticOutcome)} (hfew : critics.length ≤ 2)
    (h : ∀ slot ∈ scored,
      majorityOf critics.length ≤ critics.countP (p.criticPlaces roundNumber slot label)) :
    critics.countP (fun critic => scored.all fun slot =>
      p.criticPlaces roundNumber slot label critic) = critics.length := by
  rw [List.countP_eq_length]
  intro critic hcritic
  rw [List.all_eq_true]
  intro slot hslot
  have hmajority := h slot hslot
  have hle := List.countP_le_length (p := p.criticPlaces roundNumber slot label) (l := critics)
  have hpos := List.length_pos_of_mem hcritic
  rw [majorityOf] at hmajority
  have hall : critics.countP (p.criticPlaces roundNumber slot label) = critics.length := by omega
  exact List.countP_eq_length.mp hall critic hcritic

/-- Peer agreement rests, for every scored slot, on a strict majority of the eligible critics that
each placed it in one and the same group. -/
theorem peer_agreement_by_slot (p : PanelTables) (hstable : p.LabelsStable)
    (answers : List PanelAnswer) (outputs : List DebateRound) (roundNumber : ℕ) (templated : Text)
    (critics : List (PanelAnswer × CriticOutcome)) (output : DebateRound)
    (hround : p.peerRound roundNumber templated critics = .ok output)
    (hlatest : latestAdmissible outputs = some output)
    (hagreed : p.panelAgreement answers outputs = .agreed) :
    ∃ label,
      (∀ slot ∈ p.scoredSlotNumbers answers,
        majorityOf critics.length ≤ critics.countP (p.criticPlaces roundNumber slot label))
      ∧ (critics.length ≤ 2 →
        majorityOf critics.length ≤ critics.countP fun critic =>
          (p.scoredSlotNumbers answers).all fun slot =>
            p.criticPlaces roundNumber slot label critic) := by
  obtain ⟨label, hlabel⟩ := majority_places_of_agreed hstable hround hlatest hagreed
  refine ⟨label, hlabel, fun hfew => ?_⟩
  rw [all_places_of_majority hfew hlabel, majorityOf]
  obtain ⟨slot, hslot⟩ := List.exists_mem_of_ne_nil _ (scoredSlotNumbers_ne_nil hagreed)
  have hmajority := hlabel slot hslot
  have hle := List.countP_le_length (p := p.criticPlaces roundNumber slot label) (l := critics)
  rw [majorityOf] at hmajority
  omega

def positionText (slot : String) (group : Char) : Text :=
  braced ("\"slot\":".toList ++ slot.toList ++ ",\"group\":\"".toList ++ [group] ++ "\"".toList)

/-- The envelope of a critic that places the first three slots in the given groups. -/
def envelopeText (groups : Char × Char × Char) : Text :=
  braced ("\"critique\":\"Compared.\",\"positions\":[".toList
    ++ [','].intercalate [positionText "1" groups.1, positionText "2" groups.2.1,
      positionText "3" groups.2.2]
    ++ "]".toList)

def envelopeJson (groups : Char × Char × Char) : Json :=
  let position : ℤ → Char → Json := fun slot group =>
    .obj [("slot", .int slot), ("group", .str [group])]
  .obj [("critique", .str "Compared.".toList),
    ("positions", .arr [position 1 groups.1, position 2 groups.2.1, position 3 groups.2.2])]

/-- The tables on lower-case ASCII, and `json.loads` on such envelopes. -/
def asciiPanelTables : PanelTables :=
  { TextTables.asciiTables with
    casefold := id
    loads := fun text =>
      [('a', 'a', 'a'), ('b', 'a', 'a'), ('a', 'b', 'a'), ('a', 'a', 'b'),
        ('a', 'b', 'c')].findSome?
        fun groups => if text = envelopeText groups then some (envelopeJson groups) else none
    fieldStrip := TextTables.asciiTables.strip
    validatedSlot := fun slot =>
      match slot with
      | .int number => some number.toNat
      | _ => none
    isWord := fun ch => ch.isAlphanum || ch == '_'
    stripOwnCaveat := id }

theorem asciiPanelTables_labelsStable : asciiPanelTables.LabelsStable := by
  intro group
  have hlabel : ∀ text, asciiPanelTables.label text = TextTables.asciiTables.strip text :=
    fun _ => rfl
  have hfield : ∀ text, asciiPanelTables.fieldStrip text = TextTables.asciiTables.strip text :=
    fun _ => rfl
  rw [hlabel, hlabel, hfield, TextTables.strip_strip, TextTables.strip_strip]

/-- A completed answer of a slot. -/
def slotAnswer (slotNumber : ℕ) : PanelAnswer :=
  { slotNumber, answerText := "Adopt.".toList, status := .completed
    providerPath := .openrouterSearch }

/-- A critic of a slot that replied with such an envelope. -/
def envelopeCritic (slotNumber : ℕ) (groups : Char × Char × Char) : PanelAnswer × CriticOutcome :=
  (slotAnswer slotNumber, .dispatched (some (envelopeText groups)))

/-- Three critics of which each sets another slot apart. -/
def dissentingCritics : List (PanelAnswer × CriticOutcome) :=
  [envelopeCritic 1 ('b', 'a', 'a'), envelopeCritic 2 ('a', 'b', 'a'),
    envelopeCritic 3 ('a', 'a', 'b')]

theorem eq_ok_of_toOption {ε α : Type} {result : Except ε α} {value : α}
    (h : result.toOption = some value) : result = .ok value := by
  cases result with
  | error message => exact absurd h (Option.some_ne_none value).symm
  | ok found => exact congrArg Except.ok (Option.some.inj h)

theorem criticPlaces_iff {roundNumber slot : ℕ} {label : Text}
    {critic : PanelAnswer × CriticOutcome} {votes : List (ℕ × Text)}
    (hvotes : (p.critiqueOf roundNumber critic).map p.critiqueVotes = some votes) :
    p.criticPlaces roundNumber slot label critic ↔ (slot, label) ∈ votes := by
  obtain ⟨critique, hcritique, rfl⟩ := Option.map_eq_some_iff.mp hvotes
  rw [criticPlaces, hcritique, Option.any_some, places, decide_eq_true_eq]

theorem not_criticUnites {roundNumber : ℕ} {scored : List ℕ}
    {critic : PanelAnswer × CriticOutcome} {votes : List (ℕ × Text)}
    (hvotes : (p.critiqueOf roundNumber critic).map p.critiqueVotes = some votes)
    (happart : ∃ slot ∈ scored, ∃ other ∈ scored,
      ∀ vote ∈ votes, ∀ vote' ∈ votes, vote.1 = slot → vote'.1 = other → vote.2 ≠ vote'.2) :
    ¬ p.criticUnites roundNumber scored critic := by
  rintro ⟨label, hlabel⟩
  obtain ⟨slot, hslot, other, hother, hapart⟩ := happart
  have hfirst := (criticPlaces_iff hvotes).mp (hlabel slot hslot)
  have hsecond := (criticPlaces_iff hvotes).mp (hlabel other hother)
  exact hapart _ hfirst _ hsecond rfl rfl rfl

/-- The panel counts as agreed although no critic placed all the scored slots in one group. -/
theorem dissentingCritics_agreed :
    let answers := [slotAnswer 1, slotAnswer 2, slotAnswer 3]
    ∃ output, asciiPanelTables.peerRound 1 [] dissentingCritics = .ok output
      ∧ latestAdmissible [output] = some output
      ∧ asciiPanelTables.panelAgreement answers [output] = .agreed
      ∧ asciiPanelTables.scoredSlotNumbers answers = [1, 2, 3]
      ∧ ∀ critic ∈ dissentingCritics, ¬ asciiPanelTables.criticUnites 1 [1, 2, 3] critic := by
  have hround : (asciiPanelTables.peerRound 1 [] dissentingCritics).toOption.map (fun output =>
      decide (latestAdmissible [output] = some output) && decide (asciiPanelTables.panelAgreement
        [slotAnswer 1, slotAnswer 2, slotAnswer 3] [output] = .agreed)) = some true := by
    decide +kernel
  obtain ⟨output, houtput, hchecks⟩ := Option.map_eq_some_iff.mp hround
  rw [Bool.and_eq_true, decide_eq_true_eq, decide_eq_true_eq] at hchecks
  refine ⟨output, ?_, hchecks.1, hchecks.2, by decide +kernel, ?_⟩
  · exact eq_ok_of_toOption houtput
  · have hvotes : dissentingCritics.map (fun critic =>
        (asciiPanelTables.critiqueOf 1 critic).map asciiPanelTables.critiqueVotes)
          = [some [(1, ['b']), (2, ['a']), (3, ['a'])], some [(1, ['a']), (2, ['b']), (3, ['a'])],
            some [(1, ['a']), (2, ['a']), (3, ['b'])]] := by
      decide +kernel
    simp only [dissentingCritics, List.map_cons, List.map_nil, List.cons.injEq, and_true] at hvotes
    obtain ⟨hfirst, hsecond, hthird⟩ := hvotes
    intro critic hcritic
    rcases List.mem_cons.mp hcritic with rfl | hcritic
    · exact not_criticUnites hfirst (by decide)
    rcases List.mem_cons.mp hcritic with rfl | hcritic
    · exact not_criticUnites hsecond (by decide)
    rcases List.mem_cons.mp hcritic with rfl | hcritic
    · exact not_criticUnites hthird (by decide)
    · exact absurd hcritic List.not_mem_nil

/-- Three critics of one mind. -/
def unitedCritics : List (PanelAnswer × CriticOutcome) :=
  [envelopeCritic 1 ('a', 'a', 'a'), envelopeCritic 2 ('a', 'a', 'a'),
    envelopeCritic 3 ('a', 'a', 'b')]

theorem peer_agreement_by_slot_united :
    ∃ output label, asciiPanelTables.peerRound 1 [] unitedCritics = .ok output
      ∧ ∀ slot ∈ asciiPanelTables.scoredSlotNumbers [slotAnswer 1, slotAnswer 2, slotAnswer 3],
          majorityOf unitedCritics.length
            ≤ unitedCritics.countP (asciiPanelTables.criticPlaces 1 slot label) := by
  have hround : (asciiPanelTables.peerRound 1 [] unitedCritics).toOption.map (fun output =>
      decide (latestAdmissible [output] = some output) && decide (asciiPanelTables.panelAgreement
        [slotAnswer 1, slotAnswer 2, slotAnswer 3] [output] = .agreed)) = some true := by
    decide +kernel
  obtain ⟨output, houtput, hchecks⟩ := Option.map_eq_some_iff.mp hround
  rw [Bool.and_eq_true, decide_eq_true_eq, decide_eq_true_eq] at hchecks
  have hpeer := eq_ok_of_toOption houtput
  obtain ⟨label, hlabel, -⟩ := peer_agreement_by_slot asciiPanelTables
    asciiPanelTables_labelsStable [slotAnswer 1, slotAnswer 2, slotAnswer 3] [output] 1 []
    unitedCritics output hpeer hchecks.1 hchecks.2
  exact ⟨output, label, hpeer, hlabel⟩

end Quorum.PanelTables
