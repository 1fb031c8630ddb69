import Quorum.JudgePages

/-! The sources that the judge is shown (`evaluation._judge_evidence_source_refs`): the budget goes
round the answers, one source for each answer in a pass, so no answer is left behind by two while it
has more. -/

namespace Quorum

section
variable {groups : List (ℕ × List PageSource)} {budget level : ℕ}

/-- All answers have come as far as `level`, or as far as their sources go. -/
def AtLevel (level : ℕ) (groups : List (ℕ × List PageSource)) : Prop :=
  ∀ entry ∈ groups, entry.1 = min level entry.2.length

/-- All answers have come as far as `level`, and none further than one more. -/
def NearLevel (level : ℕ) (groups : List (ℕ × List PageSource)) : Prop :=
  ∀ entry ∈ groups, min level entry.2.length ≤ entry.1 ∧ entry.1 ≤ min (level + 1) entry.2.length

/-- The sources of all answers. -/
def sourceTotal (groups : List (ℕ × List PageSource)) : ℕ :=
  (groups.map fun entry => entry.2.length).sum

/-- The sources that the quotas keep. -/
def quotaTotal (groups : List (ℕ × List PageSource)) : ℕ := (groups.map Prod.fst).sum

theorem AtLevel.near (h : AtLevel level groups) : NearLevel level groups := by
  intro entry hentry
  have := h entry hentry
  omega

/-! ### One pass -/

theorem quotaPass_groups (groups : List (ℕ × List PageSource)) :
    ∀ budget, (quotaPass budget groups).2.map Prod.snd = groups.map Prod.snd := by
  induction groups with
  | nil => exact fun budget => by cases budget <;> rfl
  | cons entry groups ih =>
      intro budget
      cases budget with
      | zero => rfl
      | succ budget =>
          rw [quotaPass]
          split_ifs
          · exact congrArg (entry.2 :: ·) (ih budget)
          · exact congrArg (entry.2 :: ·) (ih (budget + 1))

/-- What a pass spends is what the quotas gain. -/
theorem quotaPass_total (groups : List (ℕ × List PageSource)) :
    ∀ budget, (quotaPass budget groups).1 + quotaTotal (quotaPass budget groups).2 = budget
      + quotaTotal groups := by
  induction groups with
  | nil => exact fun budget => by cases budget <;> rfl
  | cons entry groups ih =>
      intro budget
      cases budget with
      | zero => rfl
      | succ budget =>
          rw [quotaPass]
          split_ifs
          · have hrest := ih budget
            simp only [quotaTotal, List.map_cons, List.sum_cons] at hrest ⊢
            omega
          · have hrest := ih (budget + 1)
            simp only [quotaTotal, List.map_cons, List.sum_cons] at hrest ⊢
            omega

/-- A pass raises the answers by one source each, until its budget is spent. -/
theorem quotaPass_near (groups : List (ℕ × List PageSource)) :
    ∀ {budget}, AtLevel level groups → NearLevel level (quotaPass budget groups).2 := by
  induction groups with
  | nil => exact fun {budget} _ => by cases budget <;> exact fun _ h => nomatch h
  | cons entry groups ih =>
      intro budget h
      have hhead := h entry List.mem_cons_self
      have htail : AtLevel level groups :=
        fun other hother => h other (List.mem_cons_of_mem _ hother)
      cases budget with
      | zero => exact h.near
      | succ budget =>
          rw [quotaPass]
          split_ifs with hroom
          · refine List.forall_mem_cons.mpr ⟨?_, ih htail⟩
            dsimp only
            omega
          · refine List.forall_mem_cons.mpr ⟨?_, ih htail⟩
            dsimp only at hroom ⊢
            omega

/-- A pass that leaves some budget has raised every answer. -/
theorem quotaPass_level (groups : List (ℕ × List PageSource)) :
    ∀ {budget}, AtLevel level groups → 0 < (quotaPass budget groups).1 →
      AtLevel (level + 1) (quotaPass budget groups).2 := by
  induction groups with
  | nil => exact fun {budget} _ _ => by cases budget <;> exact fun _ h => nomatch h
  | cons entry groups ih =>
      intro budget h hleft
      have hhead := h entry List.mem_cons_self
      have htail : AtLevel level groups :=
        fun other hother => h other (List.mem_cons_of_mem _ hother)
      cases budget with
      | zero => exact absurd hleft (Nat.lt_irrefl 0)
      | succ budget =>
          rw [quotaPass] at hleft ⊢
          split_ifs at hleft ⊢ with hroom
          · refine List.forall_mem_cons.mpr ⟨?_, ih htail hleft⟩
            dsimp only
            omega
          · refine List.forall_mem_cons.mpr ⟨?_, ih htail hleft⟩
            dsimp only at hroom ⊢
            omega

/-! ### The passes -/

theorem fillQuotas_groups (budget : ℕ) (groups : List (ℕ × List PageSource)) :
    (fillQuotas budget groups).map Prod.snd = groups.map Prod.snd := by
  fun_induction fillQuotas budget groups with
  | case1 budget groups _ ih => exact ih.trans (quotaPass_groups groups budget)
  | case2 => rfl

/-- The passes spend the budget, unless they keep everything. -/
theorem fillQuotas_total (budget : ℕ) (groups : List (ℕ × List PageSource)) :
    ∃ left, left + quotaTotal (fillQuotas budget groups) = budget + quotaTotal groups
      ∧ (left = 0 ∨ ∀ entry ∈ fillQuotas budget groups, entry.2.length ≤ entry.1) := by
  fun_induction fillQuotas budget groups with
  | case1 budget groups _ ih =>
      obtain ⟨left, htotal, hdone⟩ := ih
      exact ⟨left, htotal.trans (quotaPass_total groups budget), hdone⟩
  | case2 budget groups hstop =>
      refine ⟨budget, rfl, ?_⟩
      rcases Nat.eq_zero_or_pos budget with hzero | hpos
      · exact Or.inl hzero
      · refine Or.inr fun entry hentry => ?_
        by_contra hroom
        exact hstop ⟨hpos,
          List.any_eq_true.mpr ⟨entry, hentry, decide_eq_true (Nat.lt_of_not_le hroom)⟩⟩

/-- The passes keep the answers level. -/
theorem fillQuotas_near (budget : ℕ) (groups : List (ℕ × List PageSource))
    (h : AtLevel level groups) :
    ∃ reached, NearLevel reached (fillQuotas budget groups) := by
  fun_induction fillQuotas budget groups generalizing level with
  | case1 budget groups _ ih =>
      rcases Nat.eq_zero_or_pos (quotaPass budget groups).1 with hspent | hleft
      · refine ⟨level, ?_⟩
        rw [fillQuotas, dif_neg (fun hgo => absurd hgo.1 (by rw [hspent]; exact Nat.lt_irrefl 0))]
        exact quotaPass_near groups h
      · exact ih (quotaPass_level groups h hleft)
  | case2 budget groups _ => exact ⟨level, h.near⟩

end

/-! ### The selection -/

/-- A selection from answers that is fair and keeps their order: of each answer its first sources,
everything under the cap and as many as the cap above it, and no answer with more to show two behind
another. -/
structure FairSelection (cap : ℕ) (answers : List (List PageSource)) (quotas : List ℕ)
    (selection : List PageSource) : Prop where
  within : List.Forall₂ (fun sources quota => quota ≤ sources.length) answers quotas
  firsts : selection = (answers.zipWith (fun sources quota => sources.take quota) quotas).flatten
  total : selection.length = min cap (answers.map List.length).sum
  everything : (answers.map List.length).sum ≤ cap → selection = answers.flatten
  fair : ∀ (i j : ℕ) (sources : List PageSource) (quota other : ℕ), answers[i]? = some sources →
    quotas[i]? = some quota → quotas[j]? = some other → quota < sources.length → other ≤ quota + 1

section
variable {groups : List (ℕ × List PageSource)}

theorem within_map (h : ∀ entry ∈ groups, entry.1 ≤ entry.2.length) :
    List.Forall₂ (fun (sources : List PageSource) quota => quota ≤ sources.length)
      (groups.map Prod.snd)
      (groups.map Prod.fst) := by
  rw [List.forall₂_map_left_iff, List.forall₂_map_right_iff, List.forall₂_same]
  exact h

theorem flatMap_take_eq (groups : List (ℕ × List PageSource)) :
    (groups.flatMap fun entry => entry.2.take entry.1)
      = ((groups.map Prod.snd).zipWith (fun sources quota => sources.take quota)
          (groups.map Prod.fst)).flatten := by
  rw [List.flatMap_def, List.zipWith_map, List.zipWith_self]

theorem length_flatMap_take (h : ∀ entry ∈ groups, entry.1 ≤ entry.2.length) :
    (groups.flatMap fun entry => entry.2.take entry.1).length = quotaTotal groups := by
  rw [List.length_flatMap, quotaTotal]
  refine congrArg List.sum (List.map_congr_left fun entry hentry => ?_)
  rw [List.length_take, Nat.min_eq_left (h entry hentry)]

theorem flatMap_take_all (h : ∀ entry ∈ groups, entry.2.length ≤ entry.1) :
    (groups.flatMap fun entry => entry.2.take entry.1) = (groups.map Prod.snd).flatten := by
  rw [List.flatMap_def]
  refine congrArg List.flatten (List.map_congr_left fun entry hentry => ?_)
  rw [List.take_of_length_le (h entry hentry)]

theorem quotaTotal_le (h : ∀ entry ∈ groups, entry.1 ≤ entry.2.length) :
    quotaTotal groups ≤ sourceTotal groups :=
  List.sum_le_sum h

/-- Quotas that sum up to everything keep everything of each answer. -/
theorem full_of_quotaTotal (h : ∀ entry ∈ groups, entry.1 ≤ entry.2.length)
    (htotal : sourceTotal groups ≤ quotaTotal groups) : ∀ entry ∈ groups,
      entry.2.length ≤ entry.1 := by
  intro entry hentry
  by_contra hroom
  exact absurd (List.sum_lt_sum _ _ h ⟨entry, hentry, Nat.lt_of_not_le hroom⟩)
    (Nat.not_lt_of_le htotal)

/-- Passes that start from nothing end with a fair selection. -/
theorem fairSelection_fillQuotas (cap : ℕ) (answers : List (List PageSource))
    (hgroups : groups = fillQuotas cap (answers.map fun sources => (0, sources))) :
    FairSelection cap answers (groups.map Prod.fst) (groups.flatMap fun entry =>
      entry.2.take entry.1) := by
  have hanswers : groups.map Prod.snd = answers := by
    rw [hgroups, fillQuotas_groups, List.map_map]
    exact List.map_id answers
  have hstart : AtLevel 0 (answers.map fun sources => (0, sources)) := by
    intro entry hentry
    obtain ⟨sources, -, rfl⟩ := List.mem_map.mp hentry
    exact (Nat.zero_min _).symm
  have hzero : quotaTotal (answers.map fun sources => (0, sources)) = 0 := by
    rw [quotaTotal, List.map_map]
    exact List.sum_eq_zero fun quota hquota => by
      obtain ⟨_, -, rfl⟩ := List.mem_map.mp hquota
      rfl
  obtain ⟨reached, hnear⟩ := fillQuotas_near cap _ hstart
  obtain ⟨left, htotal, hdone⟩ := fillQuotas_total cap (answers.map fun sources => (0, sources))
  rw [← hgroups] at hnear htotal hdone
  rw [hzero] at htotal
  have hwithin : ∀ entry ∈ groups, entry.1 ≤ entry.2.length :=
    fun entry hentry => (hnear entry hentry).2.trans (Nat.min_le_right _ _)
  have hle := quotaTotal_le hwithin
  have hsources : (answers.map List.length).sum = sourceTotal groups := by
    rw [← hanswers, List.map_map]
    rfl
  have hfull : sourceTotal groups ≤ cap → ∀ entry ∈ groups, entry.2.length ≤ entry.1 := by
    intro hcap
    rcases hdone with hspent | hall
    · exact full_of_quotaTotal hwithin (by omega)
    · exact hall
  have hcount : quotaTotal groups = min cap (sourceTotal groups) := by
    rcases hdone with hspent | hall
    · omega
    · have : sourceTotal groups ≤ quotaTotal groups := List.sum_le_sum hall
      omega
  refine ⟨?_, ?_, ?_, ?_, ?_⟩
  · rw [← hanswers]
    exact within_map hwithin
  · rw [← hanswers]
    exact flatMap_take_eq groups
  · rw [length_flatMap_take hwithin, hcount, hsources]
  · intro hcap
    rw [hsources] at hcap
    rw [flatMap_take_all (hfull hcap), hanswers]
  · intro i j sources quota other hsource hquota hother hroom
    rw [← hanswers, List.getElem?_map, Option.map_eq_some_iff] at hsource
    rw [List.getElem?_map, Option.map_eq_some_iff] at hquota hother
    obtain ⟨entry, hentry, rfl⟩ := hsource
    obtain ⟨same, hsame, rfl⟩ := hquota
    obtain ⟨ahead, hahead, rfl⟩ := hother
    obtain rfl := Option.some.inj (hentry.symm.trans hsame)
    have hbehind := (hnear entry (List.mem_of_getElem? hentry)).1
    have hfront := (hnear ahead (List.mem_of_getElem? hahead)).2
    omega

end

namespace PageTables

variable (p : PageTables)

/-- The sources of an answer but for the app's own placeholders. -/
def realSources (answer : SourcedAnswer) : List PageSource :=
  answer.sources.filter fun source => !p.isPlaceholder source

/-- How many sources of each answer the judge is shown. -/
def judgeQuotas (initialAnswers : List SourcedAnswer) : List ℕ :=
  (fillQuotas judgeMaxSourceLines (initialAnswers.map fun answer => (0, p.realSources answer))).map
    Prod.fst

/-- `judge_evidence_sources`, the title and the address of each source line. -/
def judgeEvidenceSources (initialAnswers : List SourcedAnswer) : List (Text × Text) :=
  (p.judgeEvidenceSourceRefs initialAnswers).map fun source =>
    (([' '].intercalate ((source.title.splitOnP p.isspace).filter (· ≠ []))).take
      judgeMaxSourceTitleLen,
      source.url.take judgeMaxSourceUrlLen)

/-- The judge is shown a fair selection of the sources that are not the app's placeholders. -/
theorem judgeEvidenceSources_fair (initialAnswers : List SourcedAnswer) :
    FairSelection judgeMaxSourceLines (initialAnswers.map p.realSources)
      (p.judgeQuotas initialAnswers)
      (p.judgeEvidenceSourceRefs initialAnswers) := by
  have hstart : (initialAnswers.map fun answer => (0, p.realSources answer))
      = (initialAnswers.map p.realSources).map fun sources => (0, sources) := by
    rw [List.map_map]
    rfl
  refine fairSelection_fillQuotas judgeMaxSourceLines (initialAnswers.map p.realSources) ?_
  rw [← hstart]

/-- The tables on ASCII texts, with the addresses of the local demo as placeholders. -/
def asciiPageTables : PageTables :=
  { PassageTables.asciiPassageTables with
    isPlaceholder := fun source => "https://example.test/".toList.isPrefixOf source.url
    isControl := fun _ => false }

/-- An answer of the local demo, with its one placeholder source. -/
def demoAnswer : SourcedAnswer :=
  { answerText := []
    sources := [{ title := [], url := "https://example.test/local-demo/".toList, excerpt := [] }] }

/-- A placeholder is not shown, however much of the cap is left. -/
theorem judgeEvidenceSourceRefs_placeholder :
    ([demoAnswer].map fun answer => answer.sources.length).sum ≤ judgeMaxSourceLines
      ∧ asciiPageTables.judgeEvidenceSourceRefs [demoAnswer] ≠ [demoAnswer].flatMap
          SourcedAnswer.sources := by
  refine ⟨by decide, fun h => ?_⟩
  have hlength := congrArg List.length h
  rw [judgeEvidenceSourceRefs, fillQuotas, dif_neg (by decide +kernel)] at hlength
  exact absurd hlength (by decide +kernel)

end PageTables

end Quorum
