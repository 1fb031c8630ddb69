import Quorum.PanelEvidence

/-! Losing critics of one round: the pooled stance only shrinks, and the verdict is raised exactly
where the code falls back on evidence that claims more than the round's own stance did. -/

namespace Quorum

theorem filterMap_sublist_filterMap {α β : Type} {less more : α → Option β} :
    ∀ {items : List α}, (∀ item ∈ items, ∀ value, less item = some value → more item = some value) →
      (items.filterMap less).Sublist (items.filterMap more) := by
  intro items
  induction items with
  | nil => exact fun _ => List.Sublist.refl _
  | cons item items ih =>
      intro h
      have hrest := ih fun other hother => h other (List.mem_cons_of_mem _ hother)
      cases hless : less item with
      | none =>
          rw [List.filterMap_cons_none hless]
          exact hrest.trans ((List.sublist_cons_self item items).filterMap more)
      | some value =>
          rw [List.filterMap_cons_some hless,
            List.filterMap_cons_some (h item List.mem_cons_self value hless)]
          exact hrest.cons_cons value

theorem mapM_some_of_sublist {α β : Type} {f : α → Option β} {less more : List α}
    (hsub : less.Sublist more) {values : List β} (h : more.mapM f = some values) :
    ∃ found, less.mapM f = some found := by
  induction hsub generalizing values with
  | slnil => exact ⟨values, h⟩
  | cons item _ ih =>
      rw [List.mapM_cons] at h
      obtain ⟨_, _, hrest⟩ := Option.bind_eq_some_iff.mp h
      obtain ⟨rest, hmap, -⟩ := Option.bind_eq_some_iff.mp hrest
      exact ih hmap
  | cons_cons item _ ih =>
      rw [List.mapM_cons] at h
      obtain ⟨value, hvalue, hrest⟩ := Option.bind_eq_some_iff.mp h
      obtain ⟨rest, hmap, -⟩ := Option.bind_eq_some_iff.mp hrest
      obtain ⟨found, hfound⟩ := ih hmap
      exact ⟨value :: found, by rw [List.mapM_cons, hvalue, hfound]; rfl⟩

theorem foldl_laterRound_some {best : DebateRound} {later : List DebateRound}
    (h : ∀ other ∈ later, best.roundNumber < other.roundNumber) :
    later.foldl laterRound (some best) = (later.foldl laterRound none).or (some best) := by
  cases later with
  | nil => rfl
  | cons first rest =>
      have hfirst := h first List.mem_cons_self
      have hsome : ∀ (rest : List DebateRound) (round : DebateRound),
          ∃ latest, rest.foldl laterRound (some round) = some latest := by
        intro rest
        induction rest with
        | nil => exact fun round => ⟨round, rfl⟩
        | cons other rest ih =>
            intro round
            rw [List.foldl_cons, laterRound]
            split
            · exact ih other
            · exact ih round
      obtain ⟨latest, hlatest⟩ := hsome rest first
      rw [List.foldl_cons, List.foldl_cons, laterRound, laterRound]
      simp only [hfirst, if_true, hlatest, Option.or_some, Option.getD_some]

theorem foldl_laterRound_mem {rounds : List DebateRound} {initial latest : Option DebateRound}
    (h : rounds.foldl laterRound initial = latest) {round : DebateRound}
    (hround : latest = some round) : some round = initial ∨ round ∈ rounds := by
  induction rounds generalizing initial with
  | nil =>
      rw [List.foldl_nil] at h
      exact Or.inl (hround.symm.trans h.symm)
  | cons first rest ih =>
      rw [List.foldl_cons] at h
      rcases ih h with hinitial | hrest
      · cases initial with
        | none =>
            rw [laterRound, Option.some.injEq] at hinitial
            rw [hinitial]
            exact Or.inr List.mem_cons_self
        | some best =>
            rw [laterRound] at hinitial
            split at hinitial
            · rw [Option.some.inj hinitial]
              exact Or.inr List.mem_cons_self
            · exact Or.inl hinitial
      · exact Or.inr (List.mem_cons_of_mem _ hrest)

/-- The admissible round of the greatest number, of rounds in order. -/
theorem latestAdmissible_append {earlier later : List DebateRound}
    (h : ∀ round ∈ earlier, ∀ other ∈ later, round.roundNumber < other.roundNumber) :
    latestAdmissible (earlier ++ later)
      = (latestAdmissible later).or (latestAdmissible earlier) := by
  rw [latestAdmissible, List.filter_append, List.foldl_append, latestAdmissible, latestAdmissible]
  cases hearlier : (earlier.filter stanceIsAdmissible).foldl laterRound none with
  | none => rw [Option.or_none]
  | some best =>
      refine foldl_laterRound_some fun other hother => ?_
      rcases foldl_laterRound_mem hearlier rfl with hnone | hmem
      · exact absurd hnone (Option.some_ne_none best)
      · exact h best (List.mem_filter.mp hmem).1 other (List.mem_filter.mp hother).1

theorem latestAdmissible_singleton (round : DebateRound) :
    latestAdmissible [round] = if stanceIsAdmissible round then some round else none := by
  rw [latestAdmissible, List.filter_singleton]
  cases stanceIsAdmissible round <;> rfl

namespace PanelTables

variable (p : PanelTables)

/-- The critic's reply is gone: it was never asked, or its critique is the template. -/
def IsLost (roundNumber : ℕ) (critic : PanelAnswer × CriticOutcome) : Prop :=
  ∀ critique, p.critiqueOf roundNumber critic = some critique → critique.critiqueMode = .fallback

/-- The same eligible critics, some of which are lost. -/
def LosesCritics (roundNumber : ℕ) (critics lossy : List (PanelAnswer × CriticOutcome)) : Prop :=
  List.Forall₂ (fun critic lost => lost.1 = critic.1
    ∧ (lost.2 = critic.2 ∨ p.IsLost roundNumber lost)) critics lossy

variable {p}

theorem LosesCritics.length_eq {roundNumber : ℕ}
    {critics lossy : List (PanelAnswer × CriticOutcome)}
    (h : p.LosesCritics roundNumber critics lossy) : critics.length = lossy.length :=
  List.Forall₂.length_eq h

/-- What only live critiques can count for is counted no more often after the loss. -/
theorem LosesCritics.countP_le {roundNumber : ℕ}
    {critics lossy : List (PanelAnswer × CriticOutcome)}
    (h : p.LosesCritics roundNumber critics lossy) {counts : SlotCritique → Bool}
    (hlive : ∀ critique, counts critique → critique.critiqueMode = .live) :
    (lossy.filterMap (p.critiqueOf roundNumber)).countP counts
      ≤ (critics.filterMap (p.critiqueOf roundNumber)).countP counts := by
  induction h with
  | nil => exact le_rfl
  | cons hhead htail ih =>
      next critic lost critics lossy =>
        have hone : ∀ critic rest,
            ((critic :: rest).filterMap (p.critiqueOf roundNumber)).countP counts
            = (rest.filterMap (p.critiqueOf roundNumber)).countP counts
              + if (p.critiqueOf roundNumber critic).any counts then 1 else 0 := by
          intro critic rest
          cases hcritique : p.critiqueOf roundNumber critic with
          | none => rw [List.filterMap_cons_none hcritique]; rfl
          | some critique =>
              rw [List.filterMap_cons_some hcritique, List.countP_cons, Option.any_some]
        rw [hone, hone]
        obtain ⟨hsame, hkept | hlost⟩ := hhead
        · have heq : lost = critic := Prod.ext hsame hkept
          rw [heq]
          omega
        · have hnone : (p.critiqueOf roundNumber lost).any counts = false := by
            cases hcritique : p.critiqueOf roundNumber lost with
            | none => rfl
            | some critique =>
                rw [Option.any_some, Bool.eq_false_iff]
                intro hcounts
                have hfallback := hlost critique hcritique
                rw [hlive critique hcounts] at hfallback
                exact absurd hfallback (by decide)
          rw [hnone]
          simp only [Bool.false_eq_true, if_false]
          omega

theorem places_live {slot : ℕ} {label : Text} {critique : SlotCritique}
    (h : p.places slot label critique) : critique.critiqueMode = .live := by
  have hvote : (slot, label) ∈ p.critiqueVotes critique := of_decide_eq_true h
  rw [critiqueVotes] at hvote
  split at hvote
  · next hlive _ => exact hlive
  · exact absurd hvote List.not_mem_nil

/-- A label still pooled for a slot after the loss was pooled for it before. -/
theorem LosesCritics.pooledLabel_eq {roundNumber : ℕ}
    {critics lossy : List (PanelAnswer × CriticOutcome)}
    (h : p.LosesCritics roundNumber critics lossy) {slot : ℕ} {label : Text}
    (hpooled : pooledLabel (majorityOf lossy.length)
      (votesFor (p.stanceVotes (lossy.filterMap (p.critiqueOf roundNumber))) slot) = some label) :
    pooledLabel (majorityOf critics.length)
      (votesFor (p.stanceVotes (critics.filterMap (p.critiqueOf roundNumber))) slot)
        = some label := by
  have hle := length_filterMap_critiqueOf_le (p := p) roundNumber
  rw [p.pooledLabel_stanceVotes_iff (hle lossy)] at hpooled
  rw [p.pooledLabel_stanceVotes_iff (hle critics)]
  refine ⟨?_, hpooled.2⟩
  rw [h.length_eq]
  exact hpooled.1.trans (h.countP_le fun _ => places_live)

theorem LosesCritics.pooledPositions_sublist {roundNumber : ℕ}
    {critics lossy : List (PanelAnswer × CriticOutcome)}
    (h : p.LosesCritics roundNumber critics lossy) :
    (pooledPositions lossy.length
        (p.stanceVotes (lossy.filterMap (p.critiqueOf roundNumber)))).Sublist
      (pooledPositions critics.length
        (p.stanceVotes (critics.filterMap (p.critiqueOf roundNumber)))) := by
  refine filterMap_sublist_filterMap fun slot _ entry hentry => ?_
  obtain ⟨label, hlabel, rfl⟩ := Option.map_eq_some_iff.mp hentry
  rw [h.pooledLabel_eq hlabel, Option.map_some]

theorem pooledPositions_slots_nodup (eligible : ℕ) (votes : List (ℕ × Text)) :
    ((pooledPositions eligible votes).map Prod.fst).Nodup := by
  have hsub : ((pooledPositions eligible votes).map Prod.fst).Sublist
      ((List.range' 1 maxSlotCount).filterMap some) := by
    rw [pooledPositions, List.map_filterMap]
    refine filterMap_sublist_filterMap fun slot _ found hfound => ?_
    obtain ⟨entry, hentry, rfl⟩ := Option.map_eq_some_iff.mp hfound
    obtain ⟨label, -, rfl⟩ := Option.map_eq_some_iff.mp hentry
    rfl
  rw [List.filterMap_some] at hsub
  exact hsub.nodup (List.nodup_range' 1)

/-- The labels of the scored slots, of a reading of the panel. -/
def evidenceOf (scored : List ℕ) (mapping : List (ℕ × Text)) : Option (List (ℕ × Text)) :=
  if mapping.any fun entry => entry.2 = [] then none
  else if scored.all fun slot => slot ∈ mapping.map Prod.fst then
    some (mapping.filter fun entry => entry.1 ∈ scored)
  else none

theorem pooledPositions_not_blank {roundNumber : ℕ} (critics : List (PanelAnswer × CriticOutcome)) :
    (pooledPositions critics.length
      (p.stanceVotes (critics.filterMap (p.critiqueOf roundNumber)))).any
        (fun entry => entry.2 = []) = false := by
  rw [List.any_eq_false]
  intro entry hentry
  have hle := length_filterMap_critiqueOf_le (p := p) roundNumber critics
  have hne := ((p.mem_pooledPositions_iff hle entry.1 entry.2).mp hentry).2.2
  simpa using hne

/-- A reading that still covers the scored slots after the loss is the reading before. -/
theorem LosesCritics.evidenceOf_eq {roundNumber : ℕ}
    {critics lossy : List (PanelAnswer × CriticOutcome)}
    (h : p.LosesCritics roundNumber critics lossy) {scored : List ℕ} {stance : List (ℕ × Text)}
    (hevidence : evidenceOf scored (pooledPositions lossy.length
      (p.stanceVotes (lossy.filterMap (p.critiqueOf roundNumber)))) = some stance) :
    evidenceOf scored (pooledPositions critics.length
      (p.stanceVotes (critics.filterMap (p.critiqueOf roundNumber)))) = some stance := by
  rw [evidenceOf, pooledPositions_not_blank] at hevidence ⊢
  simp only [Bool.false_eq_true, if_false] at hevidence ⊢
  split_ifs at hevidence with hcovers
  have hsub := h.pooledPositions_sublist
  have hcovers' : (scored.all fun slot => slot ∈ (pooledPositions critics.length
      (p.stanceVotes (critics.filterMap (p.critiqueOf roundNumber)))).map Prod.fst) := by
    rw [List.all_eq_true] at hcovers ⊢
    intro slot hslot
    have hmem := of_decide_eq_true (hcovers slot hslot)
    exact decide_eq_true ((hsub.map Prod.fst).subset hmem)
  rw [if_pos hcovers', ← hevidence]
  congr 1
  rw [pooledPositions, pooledPositions, List.filter_filterMap, List.filter_filterMap]
  refine List.filterMap_congr fun slot _ => ?_
  by_cases hscored : slot ∈ scored
  · have hmem := of_decide_eq_true (List.all_eq_true.mp hcovers slot hscored)
    obtain ⟨entry, hentry, rfl⟩ := List.mem_map.mp hmem
    obtain ⟨other, -, hpooled⟩ := List.mem_filterMap.mp hentry
    obtain ⟨label, hlabel, rfl⟩ := Option.map_eq_some_iff.mp hpooled
    rw [h.pooledLabel_eq hlabel, hlabel]
  · have hdrop : ∀ found : Option Text,
        (found.map fun label => (slot, label)).filter (fun entry => entry.1 ∈ scored) = none := by
      intro found
      cases found with
      | none => rfl
      | some label => exact if_neg (by simpa using hscored)
    rw [hdrop, hdrop]

end PanelTables

end Quorum
