import Quorum.ConsensusStrength

/-! The pooled stance of a peer round: a label is pooled for a slot exactly when a strict majority
of the eligible critics placed the slot in it. -/

namespace Quorum

theorem le_foldr_max {values : List ℕ} {value : ℕ} (h : value ∈ values) :
    value ≤ values.foldr max 0 := by
  induction values with
  | nil => exact absurd h List.not_mem_nil
  | cons first rest ih =>
      rw [List.foldr_cons]
      rcases List.mem_cons.mp h with rfl | hrest
      · exact Nat.le_max_left _ _
      · exact (ih hrest).trans (Nat.le_max_right _ _)

theorem foldr_max_le {values : List ℕ} {bound : ℕ} (h : ∀ value ∈ values, value ≤ bound) :
    values.foldr max 0 ≤ bound := by
  induction values with
  | nil => exact Nat.zero_le _
  | cons first rest ih =>
      rw [List.foldr_cons]
      exact Nat.max_le.mpr ⟨h first List.mem_cons_self,
        ih fun value hvalue => h value (List.mem_cons_of_mem _ hvalue)⟩

theorem count_add_count_le (labels : List Text) {label other : Text} (hne : label ≠ other) :
    labels.count label + labels.count other ≤ labels.length := by
  have hsplit := List.length_eq_countP_add_countP (fun entry => entry == label) (l := labels)
  have hother : labels.count other
      ≤ labels.countP fun entry => decide (¬ (entry == label) = true) := by
    refine List.countP_mono_left fun entry _ hentry => ?_
    have heq : entry = other := by simpa using hentry
    simpa [heq] using hne.symm
  rw [List.count]
  omega

/-- With fewer votes than twice the threshold, the pooled label is the one whose votes reach it. -/
theorem pooledLabel_eq_some_iff {threshold : ℕ} {labels : List Text} {winner : Text}
    (h : labels.length < 2 * threshold) :
    pooledLabel threshold labels = some winner
      ↔ threshold ≤ labels.count winner ∧ winner ≠ [] := by
  rw [pooledLabel]
  constructor
  · intro hpooled
    split at hpooled
    · next only hfilter =>
        have hmem : only ∈ labels.dedup.filter fun label =>
            labels.count label = (labels.map labels.count).foldr max 0 := by
          rw [hfilter]
          exact List.mem_cons_self
        have hcount := (List.mem_filter.mp hmem).2
        simp only [decide_eq_true_eq] at hcount
        split_ifs at hpooled with hreach
        rw [← Option.some.inj hpooled, hcount]
        exact hreach
    · exact absurd hpooled (Option.some_ne_none _).symm
  · rintro ⟨hreach, hne⟩
    have hmem : winner ∈ labels := List.count_pos_iff.mp (by omega)
    -- no other label can have as many votes
    have hothers : ∀ label ∈ labels, label ≠ winner → labels.count label < threshold := by
      intro label _ hlabel
      have htotal := count_add_count_le labels hlabel
      omega
    have htop : (labels.map labels.count).foldr max 0 = labels.count winner := by
      refine le_antisymm (foldr_max_le fun count hcount => ?_)
        (le_foldr_max (List.mem_map_of_mem hmem))
      obtain ⟨label, hlabel, rfl⟩ := List.mem_map.mp hcount
      by_cases heq : label = winner
      · rw [heq]
      · exact (hothers label hlabel heq).le.trans hreach
    have hfilter : (labels.dedup.filter fun label =>
        labels.count label = (labels.map labels.count).foldr max 0) = [winner] := by
      refine List.perm_singleton.mp ((List.perm_ext_iff_of_nodup
        (labels.nodup_dedup.filter _) (List.nodup_singleton winner)).mpr fun label => ?_)
      rw [List.mem_filter, List.mem_dedup, List.mem_singleton, htop, decide_eq_true_eq]
      constructor
      · rintro ⟨hlabel, hcount⟩
        by_contra hne'
        have := hothers label hlabel hne'
        omega
      · rintro rfl
        exact ⟨hmem, rfl⟩
    rw [hfilter, htop]
    exact if_pos ⟨hreach, hne⟩

theorem length_lt_two_mul_majorityOf {count eligible : ℕ} (h : count ≤ eligible) :
    count < 2 * majorityOf eligible := by
  rw [majorityOf]
  omega

theorem votesFor_append (left right : List (ℕ × Text)) (slot : ℕ) :
    votesFor (left ++ right) slot = votesFor left slot ++ votesFor right slot := by
  rw [votesFor, List.filter_append, List.map_append, votesFor, votesFor]

theorem mem_votesFor_iff {votes : List (ℕ × Text)} {slot : ℕ} {label : Text} :
    label ∈ votesFor votes slot ↔ (slot, label) ∈ votes := by
  simp [votesFor]

namespace PanelTables

variable (p : PanelTables)

/-- The critique, live and with a stance of its own, places the slot in the label's group. -/
def places (slot : ℕ) (label : Text) (critique : SlotCritique) : Bool :=
  (slot, label) ∈ p.critiqueVotes critique

/-- The eligible critic placed the slot in the label's group in the round. -/
def criticPlaces (roundNumber slot : ℕ) (label : Text) (critic : PanelAnswer × CriticOutcome) :
    Bool :=
  (p.critiqueOf roundNumber critic).any (p.places slot label)

/-- Reading a label again changes nothing: folding case is idempotent and brings in no space. -/
def LabelsStable : Prop :=
  ∀ group, p.label (p.fieldStrip (p.label group)) = p.label group

theorem critiqueVotes_slots_nodup (critique : SlotCritique) :
    ((p.critiqueVotes critique).map Prod.fst).Nodup := by
  rw [critiqueVotes]
  split
  · next stance _ _ =>
      rw [List.map_map]
      exact stance.distinct
  · exact List.nodup_nil

theorem length_votesFor_critiqueVotes_le (critique : SlotCritique) (slot : ℕ) :
    (votesFor (p.critiqueVotes critique) slot).length ≤ 1 := by
  have hnodup := List.nodup_iff_count_le_one.mp (p.critiqueVotes_slots_nodup critique) slot
  rw [votesFor, List.length_map, ← List.countP_eq_length_filter]
  rw [List.count, List.countP_map] at hnodup
  refine le_trans (List.countP_mono_left fun vote _ hvote => ?_) hnodup
  simpa using hvote

theorem count_votesFor_critiqueVotes (critique : SlotCritique) (slot : ℕ) (label : Text) :
    (votesFor (p.critiqueVotes critique) slot).count label
      = if p.places slot label critique then 1 else 0 := by
  have hlength := p.length_votesFor_critiqueVotes_le critique slot
  have hle := (List.count_le_length (a := label)).trans hlength
  split
  · next hplaces =>
      have hmem := mem_votesFor_iff.mpr (of_decide_eq_true hplaces)
      have := List.count_pos_iff.mpr hmem
      omega
  · next hplaces =>
      refine List.count_eq_zero_of_not_mem fun hmem => hplaces ?_
      exact decide_eq_true (mem_votesFor_iff.mp hmem)

theorem stanceVotes_cons (critique : SlotCritique) (critiques : List SlotCritique) :
    p.stanceVotes (critique :: critiques)
      = p.critiqueVotes critique ++ p.stanceVotes critiques :=
  List.flatMap_cons

theorem length_votesFor_stanceVotes_le (critiques : List SlotCritique) (slot : ℕ) :
    (votesFor (p.stanceVotes critiques) slot).length ≤ critiques.length := by
  induction critiques with
  | nil => exact le_rfl
  | cons critique critiques ih =>
      have hone := p.length_votesFor_critiqueVotes_le critique slot
      rw [stanceVotes_cons, votesFor_append, List.length_append, List.length_cons]
      omega

theorem count_votesFor_stanceVotes (critiques : List SlotCritique) (slot : ℕ) (label : Text) :
    (votesFor (p.stanceVotes critiques) slot).count label
      = critiques.countP (p.places slot label) := by
  induction critiques with
  | nil => rfl
  | cons critique critiques ih =>
      rw [stanceVotes_cons, votesFor_append, List.count_append, ih, List.countP_cons,
        count_votesFor_critiqueVotes, Nat.add_comm]

/-- A slot's pooled label is the one a strict majority of the eligible critics placed it in. -/
theorem pooledLabel_stanceVotes_iff {critiques : List SlotCritique} {eligible : ℕ}
    (h : critiques.length ≤ eligible) (slot : ℕ) (label : Text) :
    pooledLabel (majorityOf eligible) (votesFor (p.stanceVotes critiques) slot) = some label
      ↔ majorityOf eligible ≤ critiques.countP (p.places slot label) ∧ label ≠ [] := by
  rw [pooledLabel_eq_some_iff, count_votesFor_stanceVotes]
  exact length_lt_two_mul_majorityOf ((p.length_votesFor_stanceVotes_le critiques slot).trans h)

theorem mem_pooledPositions_iff {critiques : List SlotCritique} {eligible : ℕ}
    (h : critiques.length ≤ eligible) (slot : ℕ) (label : Text) :
    (slot, label) ∈ pooledPositions eligible (p.stanceVotes critiques)
      ↔ (1 ≤ slot ∧ slot ≤ maxSlotCount)
        ∧ majorityOf eligible ≤ critiques.countP (p.places slot label) ∧ label ≠ [] := by
  rw [← p.pooledLabel_stanceVotes_iff h, pooledPositions, List.mem_filterMap]
  constructor
  · rintro ⟨other, hother, hpooled⟩
    obtain ⟨text, htext, heq⟩ := Option.map_eq_some_iff.mp hpooled
    rw [Prod.mk.injEq] at heq
    obtain ⟨rfl, rfl⟩ := heq
    have hrange := List.mem_range'_1.mp hother
    exact ⟨⟨hrange.1, by omega⟩, htext⟩
  · rintro ⟨hrange, hpooled⟩
    refine ⟨slot, List.mem_range'_1.mpr ⟨hrange.1, by omega⟩, ?_⟩
    rw [hpooled, Option.map_some]

theorem exists_group_of_mem_stanceVotes {critiques : List SlotCritique} {slot : ℕ} {label : Text}
    (h : (slot, label) ∈ p.stanceVotes critiques) : ∃ group, label = p.label group := by
  rw [stanceVotes, List.mem_flatMap] at h
  obtain ⟨critique, -, hvote⟩ := h
  rw [critiqueVotes] at hvote
  split at hvote
  · obtain ⟨position, -, heq⟩ := List.mem_map.mp hvote
    rw [Prod.mk.injEq] at heq
    exact ⟨position.group, heq.2.symm⟩
  · exact absurd hvote List.not_mem_nil

theorem exists_group_of_mem_pooledPositions {critiques : List SlotCritique} {eligible : ℕ}
    (h : critiques.length ≤ eligible) {entry : ℕ × Text}
    (hentry : entry ∈ pooledPositions eligible (p.stanceVotes critiques)) :
    ∃ group, entry.2 = p.label group := by
  obtain ⟨-, hmajority, -⟩ := (p.mem_pooledPositions_iff h entry.1 entry.2).mp hentry
  have hpos : 0 < critiques.countP (p.places entry.1 entry.2) := by
    rw [majorityOf] at hmajority
    omega
  obtain ⟨critique, hcritique, hplaces⟩ := List.countP_pos_iff.mp hpos
  have hvote : (entry.1, entry.2) ∈ p.stanceVotes critiques :=
    List.mem_flatMap.mpr ⟨critique, hcritique, of_decide_eq_true hplaces⟩
  exact p.exists_group_of_mem_stanceVotes hvote

variable {p}

theorem slotPosition_eq_some {slot : ℕ} {group : Text} {position : SlotPosition}
    (h : p.slotPosition slot group = some position) :
    position.slot = slot ∧ position.group = p.fieldStrip group := by
  rw [slotPosition] at h
  split_ifs at h
  rw [← Option.some.inj h]
  exact ⟨rfl, rfl⟩

/-- Reading the stored positions gives the pooled labels back. -/
theorem mapping_of_mapM (hstable : p.LabelsStable) :
    ∀ {pooled : List (ℕ × Text)} {positions : List SlotPosition},
      (∀ entry ∈ pooled, ∃ group, entry.2 = p.label group) →
      (pooled.mapM fun position => p.slotPosition position.1 position.2) = some positions →
      positions.map (fun position => (position.slot, p.label position.group)) = pooled := by
  intro pooled
  induction pooled with
  | nil =>
      intro positions _ h
      rw [List.mapM_nil] at h
      rw [← Option.some.inj h, List.map_nil]
  | cons entry pooled ih =>
      intro positions hgroups h
      rw [List.mapM_cons] at h
      obtain ⟨position, hposition, hrest⟩ := Option.bind_eq_some_iff.mp h
      obtain ⟨rest, hmap, heq⟩ := Option.bind_eq_some_iff.mp hrest
      rw [← Option.some.inj heq, List.map_cons, ih
        (fun other hother => hgroups other (List.mem_cons_of_mem _ hother)) hmap]
      obtain ⟨hslot, hgroup⟩ := slotPosition_eq_some hposition
      obtain ⟨group, hlabel⟩ := hgroups entry List.mem_cons_self
      rw [hslot, hgroup, hlabel, hstable group, ← hlabel]

end PanelTables

end Quorum
