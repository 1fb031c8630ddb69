import Quorum.BaseRelabel
import Quorum.ConsensusCoherence
import Quorum.PanelRaised

/-! Renaming the groups of a reading of the panel: what the verdict keeps when one moderator renames
its groups or all the critics of a round rename theirs alike. -/

namespace Quorum

def SlotPosition.rename (rename : Text → Text) (position : SlotPosition) : SlotPosition :=
  { position with group := rename position.group }

def PanelStance.rename (rename : Text → Text) (stance : PanelStance) : PanelStance :=
  { positions := stance.positions.map (SlotPosition.rename rename)
    distinct := by
      rw [List.map_map]
      exact stance.distinct }

def SlotCritique.rename (rename : Text → Text) (critique : SlotCritique) : SlotCritique :=
  { critique with stance := critique.stance.map (PanelStance.rename rename) }

/-- The groups that a critique's stance names. -/
def SlotCritique.groups (critique : SlotCritique) : List Text :=
  (critique.stance.map fun stance => stance.positions.map SlotPosition.group).getD []

/-- Labelled slots under a relabelling. -/
def relabel (f : Text → Text) (stance : List (ℕ × Text)) : List (ℕ × Text) :=
  stance.map fun entry => (entry.1, f entry.2)

theorem relabel_labels (f : Text → Text) (stance : List (ℕ × Text)) :
    (relabel f stance).map Prod.snd = (stance.map Prod.snd).map f := by
  rw [relabel, List.map_map, List.map_map]
  rfl

theorem relabel_slots (f : Text → Text) (stance : List (ℕ × Text)) :
    (relabel f stance).map Prod.fst = stance.map Prod.fst := by
  rw [relabel, List.map_map]
  rfl

theorem length_relabel (f : Text → Text) (stance : List (ℕ × Text)) :
    (relabel f stance).length = stance.length :=
  List.length_map _

theorem votesFor_relabel (f : Text → Text) (votes : List (ℕ × Text)) (slot : ℕ) :
    votesFor (relabel f votes) slot = (votesFor votes slot).map f := by
  rw [votesFor, relabel, List.filter_map, List.map_map, votesFor, List.map_map]
  rfl

/-- Blank labels, and only they, become blank. -/
def KeepsBlank (f : Text → Text) (labels : List Text) : Prop :=
  ∀ label ∈ labels, f label = [] ↔ label = []

theorem pooledLabel_map {f : Text → Text} {labels : List Text} (hapart : Relabel.Apart f labels)
    (hblank : KeepsBlank f labels) (threshold : ℕ) :
    pooledLabel threshold (labels.map f) = (pooledLabel threshold labels).map f := by
  have hwinners := hapart.filter_count_map ((labels.map labels.count).foldr max 0)
  rw [pooledLabel, pooledLabel]
  simp only [hapart.counts_map, hwinners]
  have hmem : ∀ label ∈ labels.dedup.filter fun label =>
      labels.count label = (labels.map labels.count).foldr max 0, label ∈ labels :=
    fun label hlabel => List.mem_dedup.mp (List.mem_filter.mp hlabel).1
  generalize (labels.dedup.filter fun label =>
      labels.count label = (labels.map labels.count).foldr max 0) = winners at hmem ⊢
  rcases winners with _ | ⟨winner, _ | ⟨other, rest⟩⟩
  · rfl
  · have hkeeps := hblank winner (hmem winner List.mem_cons_self)
    simp only [List.map_cons, List.map_nil, ne_eq, hkeeps]
    split_ifs <;> rfl
  · rfl

theorem pooledPositions_relabel {f : Text → Text} {votes : List (ℕ × Text)}
    (hapart : Relabel.Apart f (votes.map Prod.snd)) (hblank : KeepsBlank f (votes.map Prod.snd))
    (eligible : ℕ) :
    pooledPositions eligible (relabel f votes) = relabel f (pooledPositions eligible votes) := by
  have hsub : ∀ slot, ∀ label ∈ votesFor votes slot, label ∈ votes.map Prod.snd :=
    fun slot label hlabel => List.mem_map.mpr ⟨_, mem_votesFor_iff.mp hlabel, rfl⟩
  rw [pooledPositions, pooledPositions, relabel.eq_def f (List.filterMap _ _), List.map_filterMap]
  apply List.filterMap_congr
  intro slot _
  rw [votesFor_relabel, pooledLabel_map (hapart.mono (hsub slot))
    (fun label hlabel => hblank label (hsub slot label hlabel))]
  cases pooledLabel (majorityOf eligible) (votesFor votes slot) <;> rfl

theorem exists_mapM_some {α β : Type} {f : α → Option β} {items : List α}
    (h : ∀ item ∈ items, ∃ value, f item = some value) : ∃ values, items.mapM f = some values := by
  induction items with
  | nil => exact ⟨[], rfl⟩
  | cons item items ih =>
      obtain ⟨value, hvalue⟩ := h item List.mem_cons_self
      obtain ⟨values, hvalues⟩ := ih fun other hother => h other (List.mem_cons_of_mem _ hother)
      refine ⟨value :: values, ?_⟩
      rw [List.mapM_cons, hvalue, hvalues]
      rfl

namespace PanelTables

variable (p : PanelTables)

/-- A renaming of groups that acts on their labels: it keeps apart what `strip` and `casefold` keep
apart, merges what they merge, and makes no label blank that was not. -/
structure Renames (rename : Text → Text) (groups : List Text) : Prop where
  apart : ∀ g ∈ groups, ∀ h ∈ groups, p.label (rename g) = p.label (rename h)
    ↔ p.label g = p.label h
  blank : ∀ g ∈ groups, p.label (rename g) = [] ↔ p.label g = []

/-- A round as it is stored from its critiques; the template's when there are none. -/
def storedRound (roundNumber : ℕ) (templated : Text) (critiques : List SlotCritique)
    (eligibleCount : ℕ) : Except String DebateRound :=
  match critiques with
  | [] => .ok (templatedRound roundNumber templated)
  | critiques =>
      (p.derivePeerStance critiques eligibleCount).map fun stance =>
        { roundNumber, critiqueText := p.peerDigest critiques
          debateMode :=
            if critiques.all fun critique => critique.critiqueMode = .live then .live else .fallback
          panelStance := stance, critiqueShape := .peer, slotCritiques := critiques
          eligibleCriticCount := eligibleCount }

/-- A stored round and the same round with one renaming of the groups: of the moderator's stance, or
of the stance of every critic, whose pooled labels have to fit a position again. -/
inductive Relabelled (rename : Text → Text) : DebateRound → DebateRound → Prop
  | moderator (round : DebateRound) (positions : List SlotPosition)
      (hshape : round.critiqueShape = .moderator) (hstance : round.panelStance = some positions)
      (hrename : p.Renames rename (positions.map SlotPosition.group)) :
      Relabelled rename round
        { round with panelStance := some (positions.map (SlotPosition.rename rename)) }
  | peer (roundNumber : ℕ) (templated : Text) (critiques : List SlotCritique) (eligibleCount : ℕ)
      (round renamed : DebateRound) (hasked : critiques.length ≤ eligibleCount)
      (hrename : p.Renames rename (critiques.flatMap SlotCritique.groups))
      (hround : p.storedRound roundNumber templated critiques eligibleCount = .ok round)
      (hrenamed : p.storedRound roundNumber templated (critiques.map (SlotCritique.rename rename))
        eligibleCount = .ok renamed) :
      Relabelled rename round renamed

/-- The panel's agreement, its strength and how many of its models are aligned. -/
def verdict (answers : List PanelAnswer) (outputs : List DebateRound)
    (modelAuthoredFinalText : Option Text) (finalAnswerWasTemplated : Bool) :
    PanelAgreement × ConsensusStrength × Except String (ℕ × ℕ) :=
  (p.panelAgreement answers outputs, p.computeConsensusStrength answers outputs,
    (p.classifyModelAlignment answers outputs modelAuthoredFinalText finalAnswerWasTemplated).map
      (summarizeAgreement answers))

variable {p}

theorem peerRound_eq_storedRound (roundNumber : ℕ) (templated : Text)
    (critics : List (PanelAnswer × CriticOutcome)) :
    p.peerRound roundNumber templated critics
      = p.storedRound roundNumber templated (critics.filterMap (p.critiqueOf roundNumber))
          critics.length := by
  unfold peerRound storedRound
  cases critics.filterMap (p.critiqueOf roundNumber) <;> rfl

/-- The labels of some groups after a renaming, as a map on labels. -/
theorem Renames.exists_map {rename : Text → Text} {groups : List Text}
    (h : p.Renames rename groups) :
    ∃ f : Text → Text, (∀ g ∈ groups, p.label (rename g) = f (p.label g))
      ∧ Relabel.Apart f (groups.map p.label) ∧ KeepsBlank f (groups.map p.label) := by
  let f : Text → Text := fun label =>
    ((groups.find? fun g => p.label g = label).map fun g => p.label (rename g)).getD label
  have hf : ∀ g ∈ groups, p.label (rename g) = f (p.label g) := by
    intro g hg
    cases hfind : groups.find? fun other => p.label other = p.label g with
    | none => exact absurd (List.find?_eq_none.mp hfind g hg) (by simp)
    | some other =>
        have hsame : p.label other = p.label g := by simpa using List.find?_some hfind
        have hmem := List.mem_of_find?_eq_some hfind
        simp only [f, hfind, Option.map_some, Option.getD_some]
        exact (h.apart g hg other hmem).mpr hsame.symm
  refine ⟨f, hf, ?_, ?_⟩
  · intro a ha b hb heq
    obtain ⟨g, hg, rfl⟩ := List.mem_map.mp ha
    obtain ⟨g', hg', rfl⟩ := List.mem_map.mp hb
    rw [← hf g hg, ← hf g' hg'] at heq
    exact (h.apart g hg g' hg').mp heq
  · intro label hlabel
    obtain ⟨g, hg, rfl⟩ := List.mem_map.mp hlabel
    rw [← hf g hg]
    exact h.blank g hg

/-! ### A relabelled stance -/

section
variable {f : Text → Text} {stance : List (ℕ × Text)} {scored : List ℕ}
  {positions positions' : List SlotPosition}

/-- A stance read from relabelled positions is the relabelled stance. -/
theorem stanceEvidence_relabel
    (hlabels : p.positionLabels positions' = relabel f (p.positionLabels positions))
    (hblank : KeepsBlank f ((p.positionLabels positions).map Prod.snd)) :
    p.stanceEvidence scored positions' = (p.stanceEvidence scored positions).map (relabel f) := by
  have hany : (relabel f (p.positionLabels positions)).any (fun entry => entry.2 = [])
      = (p.positionLabels positions).any fun entry => entry.2 = [] := by
    rw [relabel, List.any_map]
    apply Bool.eq_iff_iff.mpr
    simp only [List.any_eq_true, Function.comp_apply, decide_eq_true_eq]
    constructor
    · rintro ⟨entry, hentry, hempty⟩
      exact ⟨entry, hentry, (hblank _ (List.mem_map_of_mem hentry)).mp hempty⟩
    · rintro ⟨entry, hentry, hempty⟩
      exact ⟨entry, hentry, (hblank _ (List.mem_map_of_mem hentry)).mpr hempty⟩
  have hitems : (Dict.ofList (relabel f (p.positionLabels positions))).items
      = relabel f (Dict.ofList (p.positionLabels positions)).items := by
    rw [relabel, Dict.ofList_mapValues]
    rfl
  have hkeys : (Dict.ofList (relabel f (p.positionLabels positions))).keys
      = (Dict.ofList (p.positionLabels positions)).keys := by
    rw [Dict.keys, hitems, relabel_slots, Dict.keys]
  have hfilter : (relabel f (Dict.ofList (p.positionLabels positions)).items).filter
        (fun entry => entry.1 ∈ scored)
      = relabel f ((Dict.ofList (p.positionLabels positions)).items.filter
        fun entry => entry.1 ∈ scored) := by
    rw [relabel, List.filter_map, relabel]
    rfl
  rw [stanceEvidence, stanceEvidence, hlabels, hany]
  simp only [hitems, hkeys, hfilter]
  split_ifs <;> rfl

theorem stanceMajorityFlags_relabel (h : Relabel.Apart f (stance.map Prod.snd)) :
    stanceMajorityFlags (relabel f stance) = stanceMajorityFlags stance := by
  have hwinners :=
    h.filter_count_map (((stance.map Prod.snd).map (stance.map Prod.snd).count).foldr max 0)
  rw [stanceMajorityFlags, stanceMajorityFlags]
  simp only [relabel_labels, h.counts_map, hwinners]
  have hmem : ∀ label ∈ (stance.map Prod.snd).dedup.filter fun label =>
      (stance.map Prod.snd).count label
        = ((stance.map Prod.snd).map (stance.map Prod.snd).count).foldr max 0,
      label ∈ stance.map Prod.snd :=
    fun label hlabel => List.mem_dedup.mp (List.mem_filter.mp hlabel).1
  generalize ((stance.map Prod.snd).dedup.filter fun label =>
    (stance.map Prod.snd).count label
      = ((stance.map Prod.snd).map (stance.map Prod.snd).count).foldr max 0) = winners at hmem ⊢
  rcases winners with _ | ⟨winner, _ | ⟨other, rest⟩⟩
  · rw [relabel, List.map_map]
    rfl
  · change (relabel f stance).map (fun entry => (entry.1, decide (entry.2 = f winner))) = _
    rw [relabel, List.map_map]
    apply List.map_congr_left
    intro entry hentry
    have hsame : f entry.2 = f winner ↔ entry.2 = winner :=
      ⟨h _ (List.mem_map_of_mem hentry) _ (hmem winner List.mem_cons_self), congrArg f⟩
    simp only [Function.comp_apply, hsame]
  · rw [relabel, List.map_map]
    rfl

theorem stanceStrength_relabel (h : Relabel.Apart f (stance.map Prod.snd)) :
    stanceStrength (relabel f stance) = stanceStrength stance := by
  rw [stanceStrength, stanceStrength]
  simp only [relabel_labels, length_relabel, h.dedup_map, List.length_map,
    h.any_count_map fun count => decide (requiredCluster stance.length ≤ count)]

theorem majorityFlag_relabel (h : Relabel.Apart f (stance.map Prod.snd))
    (answers : List PanelAnswer) :
    p.majorityFlag (some (relabel f stance)) answers = p.majorityFlag (some stance) answers := by
  funext answer
  rw [majorityFlag, majorityFlag, stanceFlag, stanceFlag, stanceMajorityFlags_relabel h]

theorem mem_labels_of_stanceEvidence (h : p.stanceEvidence scored positions = some stance)
    {label : Text} (hlabel : label ∈ stance.map Prod.snd) :
    label ∈ (p.positionLabels positions).map Prod.snd := by
  obtain ⟨entry, hentry, rfl⟩ := List.mem_map.mp hlabel
  rw [stanceEvidence] at h
  split_ifs at h
  rw [← Option.some.inj h] at hentry
  exact List.mem_map_of_mem (Dict.mem_of_mem_ofList (List.mem_filter.mp hentry).1)

end

/-! ### A relabelled round -/

/-- What a relabelled round keeps of the round, and what became of its labels. -/
structure RelabelsRound (p : PanelTables) (f : Text → Text)
    (round renamed : DebateRound) : Prop where
  roundNumber : renamed.roundNumber = round.roundNumber
  admissible : stanceIsAdmissible renamed = stanceIsAdmissible round
  convergence : p.debateSignalsConvergence [renamed] = p.debateSignalsConvergence [round]
  labels : renamed.panelStance.map p.positionLabels
    = round.panelStance.map fun positions => relabel f (p.positionLabels positions)
  apart : ∀ positions ∈ round.panelStance,
    Relabel.Apart f ((p.positionLabels positions).map Prod.snd)
  blank : ∀ positions ∈ round.panelStance, KeepsBlank f ((p.positionLabels positions).map Prod.snd)

theorem foldl_laterRound_replace {round renamed : DebateRound}
    (hnumber : renamed.roundNumber = round.roundNumber) (rounds : List DebateRound) :
    rounds.foldl laterRound (some renamed) = rounds.foldl laterRound (some round)
      ∨ rounds.foldl laterRound (some round) = some round
        ∧ rounds.foldl laterRound (some renamed) = some renamed := by
  induction rounds with
  | nil => exact Or.inr ⟨rfl, rfl⟩
  | cons output rounds ih =>
      rw [List.foldl_cons, List.foldl_cons, laterRound, laterRound, hnumber]
      by_cases hlater : round.roundNumber < output.roundNumber
      · rw [if_pos hlater, if_pos hlater]
        exact Or.inl rfl
      · rw [if_neg hlater, if_neg hlater]
        exact ih

/-- Replacing a round by one of its number and admissibility replaces it as the latest, or changes
nothing. -/
theorem latestAdmissible_replace {round renamed : DebateRound}
    (hnumber : renamed.roundNumber = round.roundNumber)
    (hadmissible : stanceIsAdmissible renamed = stanceIsAdmissible round)
    (before after : List DebateRound) :
    latestAdmissible (before ++ renamed :: after) = latestAdmissible (before ++ round :: after)
      ∨ latestAdmissible (before ++ round :: after) = some round
        ∧ latestAdmissible (before ++ renamed :: after) = some renamed := by
  rw [latestAdmissible, latestAdmissible, List.filter_append, List.filter_append, List.foldl_append,
    List.foldl_append]
  cases hround : stanceIsAdmissible round with
  | false =>
      rw [hround] at hadmissible
      rw [List.filter_cons_of_neg (by simp [hadmissible]),
        List.filter_cons_of_neg (by simp [hround])]
      exact Or.inl rfl
  | true =>
      rw [hround] at hadmissible
      rw [List.filter_cons_of_pos hadmissible, List.filter_cons_of_pos hround, List.foldl_cons,
        List.foldl_cons]
      cases (before.filter stanceIsAdmissible).foldl laterRound none with
      | none => exact foldl_laterRound_replace hnumber _
      | some best =>
          rw [laterRound, laterRound, hnumber]
          by_cases hlater : best.roundNumber < round.roundNumber
          · rw [if_pos hlater, if_pos hlater]
            exact foldl_laterRound_replace hnumber _
          · rw [if_neg hlater, if_neg hlater]
            exact Or.inl rfl

theorem relabel_id (stance : List (ℕ × Text)) : relabel id stance = stance :=
  List.map_id stance

/-- The usable stance of a debate with a relabelled round is the usable stance relabelled. -/
theorem RelabelsRound.usableStance {f : Text → Text} {round renamed : DebateRound}
    (h : p.RelabelsRound f round renamed) (answers : List PanelAnswer)
    (before after : List DebateRound) :
    ∃ g : Text → Text,
      p.usableStance answers (before ++ renamed :: after)
          = (p.usableStance answers (before ++ round :: after)).map (relabel g)
        ∧ ∀ stance ∈ p.usableStance answers (before ++ round :: after),
            Relabel.Apart g (stance.map Prod.snd) := by
  rcases latestAdmissible_replace h.roundNumber h.admissible before after with hsame |
    ⟨hround, hrenamed⟩
  · refine ⟨id, ?_, fun _ _ _ _ _ _ heq => heq⟩
    have hid : relabel id = id := funext relabel_id
    rw [PanelTables.usableStance, hsame, hid, Option.map_id]
    rfl
  · refine ⟨f, ?_, ?_⟩
    · rw [PanelTables.usableStance, PanelTables.usableStance, hround, hrenamed]
      split_ifs
      · rfl
      · rw [Option.bind_some, Option.bind_some]
        have hlabels := h.labels
        have hblank := h.blank
        cases hpositions : round.panelStance with
        | none =>
            rw [hpositions, Option.map_none, Option.map_eq_none_iff] at hlabels
            rw [hlabels]
            rfl
        | some positions =>
            rw [hpositions, Option.map_some] at hlabels
            obtain ⟨positions', hpositions', hrelabel⟩ := Option.map_eq_some_iff.mp hlabels
            rw [hpositions', Option.bind_some, Option.bind_some]
            exact stanceEvidence_relabel hrelabel (hblank positions hpositions)
    · intro stance hstance
      obtain ⟨latest, positions, hlatest, hpositions, hevidence⟩ := usableStance_eq_some hstance
      obtain rfl : round = latest := Option.some.inj (hround.symm.trans hlatest)
      exact (h.apart positions hpositions).mono fun label hlabel =>
        mem_labels_of_stanceEvidence hevidence hlabel

/-- A debate with a relabelled round has the same verdict. -/
theorem RelabelsRound.verdict_eq {f : Text → Text} {round renamed : DebateRound}
    (h : p.RelabelsRound f round renamed) (answers : List PanelAnswer)
    (before after : List DebateRound) (modelAuthoredFinalText : Option Text)
    (finalAnswerWasTemplated : Bool) :
    p.verdict answers (before ++ renamed :: after) modelAuthoredFinalText finalAnswerWasTemplated
      = p.verdict answers (before ++ round :: after) modelAuthoredFinalText
          finalAnswerWasTemplated := by
  obtain ⟨g, hstance, hapart⟩ := h.usableStance answers before after
  have hconverge : p.debateSignalsConvergence (before ++ renamed :: after)
      = p.debateSignalsConvergence (before ++ round :: after) := by
    rw [← List.singleton_append, ← List.singleton_append (x := round),
      debateSignalsConvergence_append, debateSignalsConvergence_append,
      debateSignalsConvergence_append, debateSignalsConvergence_append, h.convergence]
  have hagreement : p.panelAgreement answers (before ++ renamed :: after)
      = p.panelAgreement answers (before ++ round :: after) := by
    rw [panelAgreement, panelAgreement, hstance]
    cases hround : p.usableStance answers (before ++ round :: after) with
    | none => rfl
    | some stance =>
        have hdedup := (hapart stance hround).dedup_map
        simp only [Option.map_some, length_relabel, relabel_labels, hdedup, List.length_map]
  have hstrength : p.computeConsensusStrength answers (before ++ renamed :: after)
      = p.computeConsensusStrength answers (before ++ round :: after) := by
    rw [computeConsensusStrength, computeConsensusStrength, hstance]
    cases hround : p.usableStance answers (before ++ round :: after) with
    | none => simp only [Option.map_none, vocabularyStrength, hconverge]
    | some stance => simp only [Option.map_some, stanceStrength_relabel (hapart stance hround)]
  have hrows : p.classifyModelAlignment answers (before ++ renamed :: after) modelAuthoredFinalText
        finalAnswerWasTemplated
      = p.classifyModelAlignment answers (before ++ round :: after) modelAuthoredFinalText
        finalAnswerWasTemplated := by
    rw [classifyModelAlignment_eq, classifyModelAlignment_eq, hstance]
    cases hround : p.usableStance answers (before ++ round :: after) with
    | none => rfl
    | some stance =>
        rw [Option.map_some, majorityFlag_relabel (hapart stance hround)]
        rfl
  rw [verdict, verdict, hagreement, hstrength, hrows]

/-! ### The two shapes -/

/-- A moderator's round whose stance is renamed. -/
theorem relabelsRound_moderator {rename : Text → Text} {round : DebateRound}
    {positions : List SlotPosition} (hstance : round.panelStance = some positions)
    (hrename : p.Renames rename (positions.map SlotPosition.group)) :
    ∃ f, p.RelabelsRound f round
      { round with panelStance := some (positions.map (SlotPosition.rename rename)) } := by
  obtain ⟨f, hf, hapart, hblank⟩ := hrename.exists_map
  have hgroups : (p.positionLabels positions).map Prod.snd
      = (positions.map SlotPosition.group).map p.label := by
    rw [positionLabels, List.map_map, List.map_map]
    rfl
  have hlabels : p.positionLabels (positions.map (SlotPosition.rename rename))
      = relabel f (p.positionLabels positions) := by
    rw [positionLabels, List.map_map, relabel, positionLabels, List.map_map]
    apply List.map_congr_left
    intro position hposition
    exact congrArg (Prod.mk position.slot) (hf _ (List.mem_map_of_mem hposition))
  refine ⟨f, ?_⟩
  constructor
  case roundNumber => rfl
  case admissible =>
    rw [stanceIsAdmissible, stanceIsAdmissible, hstance]
  case convergence => rfl
  case labels =>
    rw [hstance, Option.map_some, Option.map_some, hlabels]
  case apart =>
    intro other hother
    rw [hstance] at hother
    rw [← Option.some.inj hother, hgroups]
    exact hapart
  case blank =>
    intro other hother
    rw [hstance] at hother
    rw [← Option.some.inj hother, hgroups]
    exact hblank

section
variable {rename f : Text → Text} {critiques : List SlotCritique}

theorem stanceVotes_rename
    (hf : ∀ g ∈ critiques.flatMap SlotCritique.groups, p.label (rename g) = f (p.label g)) :
    p.stanceVotes (critiques.map (SlotCritique.rename rename))
      = relabel f (p.stanceVotes critiques) := by
  rw [stanceVotes, List.flatMap_map, stanceVotes, relabel, List.map_flatMap]
  apply List.flatMap_congr
  intro critique hcritique
  rw [critiqueVotes, critiqueVotes]
  cases hmode : critique.critiqueMode with
  | fallback => simp [SlotCritique.rename, hmode]
  | live =>
      cases hstance : critique.stance with
      | none => simp [SlotCritique.rename, hmode, hstance]
      | some stance =>
          have hgroups : critique.groups = stance.positions.map SlotPosition.group := by
            rw [SlotCritique.groups, hstance]
            rfl
          simp only [SlotCritique.rename, hmode, hstance, Option.map_some, PanelStance.rename,
            List.map_map]
          apply List.map_congr_left
          intro position hposition
          have hgroup : position.group ∈ critiques.flatMap SlotCritique.groups := by
            refine List.mem_flatMap.mpr ⟨critique, hcritique, ?_⟩
            rw [hgroups]
            exact List.mem_map_of_mem hposition
          exact congrArg (Prod.mk position.slot) (hf _ hgroup)

/-- Every vote is for the label of a group that some critic names. -/
theorem mem_groups_of_stanceVotes {label : Text}
    (h : label ∈ (p.stanceVotes critiques).map Prod.snd) :
    label ∈ (critiques.flatMap SlotCritique.groups).map p.label := by
  obtain ⟨vote, hvote, rfl⟩ := List.mem_map.mp h
  obtain ⟨critique, hcritique, hmem⟩ := List.mem_flatMap.mp hvote
  rw [critiqueVotes] at hmem
  split at hmem
  · next stance _ hstance =>
      obtain ⟨position, hposition, rfl⟩ := List.mem_map.mp hmem
      refine List.mem_map.mpr ⟨position.group, List.mem_flatMap.mpr ⟨critique, hcritique, ?_⟩, rfl⟩
      rw [SlotCritique.groups, hstance]
      exact List.mem_map_of_mem hposition
  · exact absurd hmem List.not_mem_nil

theorem mem_votes_of_pooledPositions {eligible : ℕ} {votes : List (ℕ × Text)} {label : Text}
    (h : label ∈ (pooledPositions eligible votes).map Prod.snd) : label ∈ votes.map Prod.snd := by
  obtain ⟨entry, hentry, rfl⟩ := List.mem_map.mp h
  obtain ⟨slot, -, hpooled⟩ := List.mem_filterMap.mp hentry
  obtain ⟨winner, hwinner, rfl⟩ := Option.map_eq_some_iff.mp hpooled
  rw [pooledLabel] at hwinner
  split at hwinner
  · next only hfilter =>
      split_ifs at hwinner
      have hmem := (List.mem_filter.mp (hfilter ▸ List.mem_cons_self)).1
      rw [← Option.some.inj hwinner]
      exact List.mem_map.mpr ⟨_, mem_votesFor_iff.mp (List.mem_dedup.mp hmem), rfl⟩
  · exact absurd hwinner (Option.some_ne_none winner).symm

/-- What a stored stance reads as: the pooled positions, or nothing when there are none. -/
theorem map_positionLabels_of_derivePeerStance (hstable : p.LabelsStable) {eligible : ℕ}
    (hpos : eligible ≠ 0) (hasked : critiques.length ≤ eligible)
    {stance : Option (List SlotPosition)} (h : p.derivePeerStance critiques eligible = .ok stance) :
    stance.map p.positionLabels
      = if pooledPositions eligible (p.stanceVotes critiques) = [] then none
        else some (pooledPositions eligible (p.stanceVotes critiques)) := by
  obtain ⟨-, -, hnone⟩ := derivePeerStance_eq_ok hpos h
  cases stance with
  | none => rw [if_pos (hnone.mp rfl), Option.map_none]
  | some positions =>
      have hmapping := mapping_of_derivePeerStance hstable hasked h
      rw [if_neg fun hempty => absurd (hnone.mpr hempty) (Option.some_ne_none positions),
        Option.map_some, positionLabels, hmapping]

theorem convergingCritics_rename (critiques : List SlotCritique) :
    p.convergingCritics (critiques.map (SlotCritique.rename rename))
      = p.convergingCritics critiques := by
  rw [convergingCritics, List.countP_map]
  rfl

/-- A round with critiques stores them and the stance derived from them. -/
theorem storedRound_eq_ok {roundNumber : ℕ} {templated : Text} {eligibleCount : ℕ}
    {round : DebateRound} (hne : critiques ≠ [])
    (h : p.storedRound roundNumber templated critiques eligibleCount = .ok round) :
    p.derivePeerStance critiques eligibleCount = .ok round.panelStance
      ∧ round.roundNumber = roundNumber ∧ round.critiqueShape = .peer
      ∧ round.slotCritiques = critiques ∧ round.eligibleCriticCount = eligibleCount := by
  cases critiques with
  | nil => exact absurd rfl hne
  | cons first rest =>
      simp only [storedRound] at h
      cases hderive : p.derivePeerStance (first :: rest) eligibleCount with
      | error message =>
          rw [hderive] at h
          cases h
      | ok stance =>
          rw [hderive] at h
          rw [← Except.ok.inj h]
          exact ⟨rfl, rfl, rfl, rfl, rfl⟩

/-- A peer round whose critics all rename their groups alike. -/
theorem relabelsRound_peer (hstable : p.LabelsStable) {roundNumber : ℕ} {templated : Text}
    {eligibleCount : ℕ} {round renamed : DebateRound} (hasked : critiques.length ≤ eligibleCount)
    (hrename : p.Renames rename (critiques.flatMap SlotCritique.groups))
    (hround : p.storedRound roundNumber templated critiques eligibleCount = .ok round)
    (hrenamed : p.storedRound roundNumber templated (critiques.map (SlotCritique.rename rename))
      eligibleCount = .ok renamed) :
    ∃ f, p.RelabelsRound f round renamed := by
  obtain ⟨f, hf, hapart, hblank⟩ := hrename.exists_map
  refine ⟨f, ?_⟩
  by_cases hne : critiques = []
  · subst hne
    have hsame : renamed = round := Except.ok.inj (hrenamed.symm.trans hround)
    rw [hsame, ← Except.ok.inj hround]
    exact ⟨rfl, rfl, rfl, rfl, fun _ h => (nomatch h), fun _ h => (nomatch h)⟩
  have hpos : eligibleCount ≠ 0 := by
    have := List.length_pos_of_ne_nil hne
    omega
  have hne' : critiques.map (SlotCritique.rename rename) ≠ [] := by simpa using hne
  have hasked' : (critiques.map (SlotCritique.rename rename)).length ≤ eligibleCount := by
    rwa [List.length_map]
  obtain ⟨hderive, hnumber, hshape, hcritiques, hcount⟩ := storedRound_eq_ok hne hround
  obtain ⟨hderive', hnumber', hshape', hcritiques', hcount'⟩ := storedRound_eq_ok hne' hrenamed
  have hvotes := stanceVotes_rename hf
  have hvotesApart : Relabel.Apart f ((p.stanceVotes critiques).map Prod.snd) :=
    hapart.mono fun label hlabel => mem_groups_of_stanceVotes hlabel
  have hvotesBlank : KeepsBlank f ((p.stanceVotes critiques).map Prod.snd) :=
    fun label hlabel => hblank label (mem_groups_of_stanceVotes hlabel)
  have hread := map_positionLabels_of_derivePeerStance hstable hpos hasked hderive
  have hread' := map_positionLabels_of_derivePeerStance hstable hpos hasked' hderive'
  have hlabels : renamed.panelStance.map p.positionLabels
      = round.panelStance.map fun positions => relabel f (p.positionLabels positions) := by
    have hcomp : (fun positions => relabel f (p.positionLabels positions))
        = relabel f ∘ p.positionLabels := rfl
    rw [hread', hcomp, ← Option.map_map, hread, hvotes,
      pooledPositions_relabel hvotesApart hvotesBlank]
    have hnil : relabel f (pooledPositions eligibleCount (p.stanceVotes critiques)) = []
        ↔ pooledPositions eligibleCount (p.stanceVotes critiques) = [] := List.map_eq_nil_iff
    simp only [hnil]
    split_ifs <;> rfl
  have hmem : ∀ positions ∈ round.panelStance, ∀ label ∈ (p.positionLabels positions).map Prod.snd,
      label ∈ (critiques.flatMap SlotCritique.groups).map p.label := by
    intro positions hpositions label hlabel
    rw [hpositions, Option.map_some] at hread
    split_ifs at hread
    rw [Option.some.inj hread] at hlabel
    exact mem_groups_of_stanceVotes (mem_votes_of_pooledPositions hlabel)
  constructor
  case roundNumber => rw [hnumber, hnumber']
  case admissible =>
    have hsome : renamed.panelStance.isSome = round.panelStance.isSome := by
      rw [← Option.isSome_map (f := p.positionLabels), hlabels, Option.isSome_map]
    rw [stanceIsAdmissible, stanceIsAdmissible, hshape, hshape']
    cases hstance : round.panelStance <;> cases hstance' : renamed.panelStance <;>
      simp [hstance, hstance'] at hsome ⊢
  case convergence =>
    simp only [debateSignalsConvergence, List.any_cons, List.any_nil, hshape, hshape', if_true,
      peerRoundSignalsConvergence, hcount, hcount', hcritiques, hcritiques',
      convergingCritics_rename]
  case labels => exact hlabels
  case apart => exact fun positions hpositions => hapart.mono (hmem positions hpositions)
  case blank =>
    exact fun positions hpositions label hlabel =>
      hblank label (hmem positions hpositions label hlabel)

end

/-- Where the folded labels of the renamed groups fit a position, the renamed round can be
stored. -/
theorem exists_storedRound_rename {rename : Text → Text} {critiques : List SlotCritique}
    {roundNumber : ℕ} (templated : Text) {eligibleCount : ℕ}
    (hfits : ∀ g ∈ critiques.flatMap SlotCritique.groups,
      1 ≤ (p.fieldStrip (p.label (rename g))).length
        ∧ (p.fieldStrip (p.label (rename g))).length ≤ 64) :
    ∃ renamed, p.storedRound roundNumber templated (critiques.map (SlotCritique.rename rename))
      eligibleCount = .ok renamed := by
  have hgroups : (critiques.map (SlotCritique.rename rename)).flatMap SlotCritique.groups
      = (critiques.flatMap SlotCritique.groups).map rename := by
    rw [List.flatMap_map, List.map_flatMap]
    apply List.flatMap_congr
    intro critique _
    rw [SlotCritique.groups, SlotCritique.groups, SlotCritique.rename]
    cases critique.stance with
    | none => rfl
    | some stance => simp [PanelStance.rename, SlotPosition.rename]
  have hposition : ∀ entry ∈ pooledPositions eligibleCount
      (p.stanceVotes (critiques.map (SlotCritique.rename rename))),
      ∃ position, p.slotPosition entry.1 entry.2 = some position := by
    intro entry hentry
    have hlabel := mem_groups_of_stanceVotes
      (mem_votes_of_pooledPositions (List.mem_map_of_mem hentry))
    rw [hgroups, List.map_map] at hlabel
    obtain ⟨g, hg, heq⟩ := List.mem_map.mp hlabel
    obtain ⟨slot, hslot, hpooled⟩ := List.mem_filterMap.mp hentry
    obtain ⟨winner, -, rfl⟩ := Option.map_eq_some_iff.mp hpooled
    have hrange := List.mem_range'_1.mp hslot
    have hlength := hfits g hg
    simp only [Function.comp_apply] at heq
    rw [heq] at hlength
    rw [slotPosition, dif_pos ⟨⟨hrange.1, by omega⟩, hlength⟩]
    exact ⟨_, rfl⟩
  obtain ⟨positions, hpositions⟩ := exists_mapM_some hposition
  obtain ⟨stance, hstance⟩ := derivePeerStance_of_mapM hpositions
  cases hrenamed : critiques.map (SlotCritique.rename rename) with
  | nil => exact ⟨_, rfl⟩
  | cons first rest =>
      rw [hrenamed] at hstance
      simp only [storedRound, hstance]
      exact ⟨_, rfl⟩

/-- The verdict does not depend on the names of the groups: not on those that a moderator gives, nor
on those that the critics of a round give, as long as all of them are renamed alike. -/
theorem verdict_relabelled (p : PanelTables) (hstable : p.LabelsStable) (rename : Text → Text)
    (round renamed : DebateRound) (hrelabelled : p.Relabelled rename round renamed)
    (answers : List PanelAnswer) (before after : List DebateRound)
    (modelAuthoredFinalText : Option Text) (finalAnswerWasTemplated : Bool) :
    p.verdict answers (before ++ renamed :: after) modelAuthoredFinalText finalAnswerWasTemplated
      = p.verdict answers (before ++ round :: after) modelAuthoredFinalText
          finalAnswerWasTemplated := by
  have hround : ∃ f, p.RelabelsRound f round renamed := by
    cases hrelabelled with
    | moderator _ positions _ hstance hrename => exact relabelsRound_moderator hstance hrename
    | peer _ _ critiques _ _ _ hasked hrename hround hrenamed =>
        exact relabelsRound_peer hstable hasked hrename hround hrenamed
  obtain ⟨f, hf⟩ := hround
  exact hf.verdict_eq answers before after modelAuthoredFinalText finalAnswerWasTemplated

/-- A critic that places the first three slots in the given groups. -/
def placingCritic (slotNumber : ℕ) (groups : Char × Char × Char) : SlotCritique :=
  { criticSlotNumber := slotNumber, critiqueText := "Compared.".toList, critiqueMode := .live
    stance := some
      { positions :=
          [{ slot := 1, group := [groups.1], range := slotNumber_one_range },
            { slot := 2, group := [groups.2.1], range := slotNumber_two_range },
            { slot := 3, group := [groups.2.2], range := slotNumber_three_range }]
        distinct := by
          change [1, 2, 3].Nodup
          decide } }

/-- Two critics of one mind and one that sets the third slot apart. -/
def nearlyUnited : List SlotCritique :=
  [placingCritic 1 ('a', 'a', 'a'), placingCritic 2 ('a', 'a', 'a'),
    placingCritic 3 ('a', 'a', 'b')]

/-- The same critics, the first of which calls its one group by another name. -/
def firstRenamed : List SlotCritique :=
  [(placingCritic 1 ('a', 'a', 'a')).rename fun _ => ['b'], placingCritic 2 ('a', 'a', 'a'),
    placingCritic 3 ('a', 'a', 'b')]

theorem verdict_relabelled_united :
    ∃ round renamed,
      asciiPanelTables.storedRound 1 [] nearlyUnited 3 = .ok round
        ∧ asciiPanelTables.storedRound 1 []
            (nearlyUnited.map (SlotCritique.rename fun g => 'z' :: g)) 3
          = .ok renamed
        ∧ asciiPanelTables.verdict [slotAnswer 1, slotAnswer 2, slotAnswer 3] [renamed] none false
          = asciiPanelTables.verdict [slotAnswer 1,
              slotAnswer 2, slotAnswer 3] [round] none false := by
  have hok : (asciiPanelTables.storedRound 1 [] nearlyUnited 3).toOption.isSome = true := by
    decide +kernel
  obtain ⟨round, hround⟩ := Option.isSome_iff_exists.mp hok
  obtain ⟨renamed, hrenamed⟩ : ∃ renamed, asciiPanelTables.storedRound 1 []
      (nearlyUnited.map (SlotCritique.rename fun g => 'z' :: g)) 3 = .ok renamed :=
    exists_storedRound_rename [] (by decide +kernel)
  have hrename : asciiPanelTables.Renames (fun g => 'z' :: g)
      (nearlyUnited.flatMap SlotCritique.groups) :=
    ⟨by decide +kernel, by decide +kernel⟩
  exact ⟨round, renamed, eq_ok_of_toOption hround, hrenamed, verdict_relabelled asciiPanelTables
    asciiPanelTables_labelsStable (fun g => 'z' :: g) round renamed
    (.peer 1 [] nearlyUnited 3 round renamed (by decide) hrename
      (eq_ok_of_toOption hround) hrenamed)
    [slotAnswer 1, slotAnswer 2, slotAnswer 3] [] [] none false⟩

/-- One critic that renames its only group turns an agreed panel into a split one. -/
theorem one_critic_renamed :
    asciiPanelTables.Renames (fun _ => ['b']) (placingCritic 1 ('a', 'a', 'a')).groups
      ∧ (∀ g ∈ (placingCritic 1 ('a', 'a', 'a')).groups, asciiPanelTables.label ['b'] ≠ [])
      ∧ ∃ round renamed, asciiPanelTables.storedRound 1 [] nearlyUnited 3 = .ok round
        ∧ asciiPanelTables.storedRound 1 [] firstRenamed 3 = .ok renamed
        ∧ asciiPanelTables.panelAgreement [slotAnswer 1,
            slotAnswer 2, slotAnswer 3] [round] = .agreed
        ∧ asciiPanelTables.panelAgreement [slotAnswer 1, slotAnswer 2, slotAnswer 3] [renamed]
          = .split := by
  have hround : (asciiPanelTables.storedRound 1 [] nearlyUnited 3).toOption.map (fun round =>
      asciiPanelTables.panelAgreement [slotAnswer 1, slotAnswer 2, slotAnswer 3] [round])
        = some .agreed := by
    decide +kernel
  have hrenamed : (asciiPanelTables.storedRound 1 [] firstRenamed 3).toOption.map (fun round =>
      asciiPanelTables.panelAgreement [slotAnswer 1, slotAnswer 2, slotAnswer 3] [round])
        = some .split := by
    decide +kernel
  obtain ⟨round, hstored, hagreed⟩ := Option.map_eq_some_iff.mp hround
  obtain ⟨renamed, hstored', hsplit⟩ := Option.map_eq_some_iff.mp hrenamed
  refine ⟨⟨by decide +kernel, by decide +kernel⟩, by decide +kernel, round, renamed,
    eq_ok_of_toOption hstored, eq_ok_of_toOption hstored', hagreed, hsplit⟩

end PanelTables

end Quorum
