import Quorum.FenceAppend
import Quorum.PromptForgery

/-! The price of a follow-up: how many characters the previous answer adds to every section's user
prompt, counted from the inserted parts alone and measured on the whole prompt. -/

namespace Quorum

namespace PanelTables

variable (p : PanelTables) (u : UnicodeData)

/-- How many characters a follow-up adds to every section call's user prompt. -/
def followUpUserPromptExtraChars (context : FollowUpContext) : ℕ :=
  let (directive, lines) := p.priorSynthesisPromptParts context
  if directive = [] then 0
  else ('\n' :: directive).length + (u.neutralizeDelimiters (joinLines lines ++ ['\n'])).length

end PanelTables

theorem joinLines_singleton (line : Text) : joinLines [line] = line :=
  List.intercalate_singleton

theorem joinLines_append {lines more : List Text} (hlines : lines ≠ []) (hmore : more ≠ []) :
    joinLines (lines ++ more) = joinLines lines ++ '\n' :: joinLines more := by
  induction lines with
  | nil => exact absurd rfl hlines
  | cons line lines ih =>
      cases lines with
      | nil =>
          obtain ⟨next, more, rfl⟩ := List.exists_cons_of_ne_nil hmore
          rw [List.singleton_append, joinLines, joinLines, joinLines, List.intercalate_cons_cons,
            List.intercalate_singleton, List.append_assoc, List.singleton_append]
      | cons next lines =>
          have hrest := ih (List.cons_ne_nil _ _)
          rw [joinLines, joinLines] at hrest ⊢
          rw [List.cons_append, List.cons_append, List.intercalate_cons_cons,
            List.intercalate_cons_cons, ← List.cons_append, hrest]
          simp

theorem prefix_joinLines (line : Text) (lines : List Text) :
    line <+: joinLines (line :: lines) := by
  cases lines with
  | nil =>
      rw [joinLines, List.intercalate_singleton]
  | cons next lines =>
      rw [joinLines, List.intercalate_cons_cons, List.append_assoc]
      exact List.prefix_append _ _

namespace PanelTables

variable {p : PanelTables} {u : UnicodeData}

/-- No ending of a marker runs into the word for a panel's size. -/
theorem noStraddle_panelLines (hascii : u.KeepsAscii) {word : String} {panelSize : ℕ}
    (hword : panelSizeWord panelSize = .ok word) (left : Text) (answers : List PromptAnswer)
    (rounds : List PromptRound) :
    NoStraddle markerLetters left (u.letters (joinLines (p.panelLines word answers rounds))) := by
  have hopens : word.toList <+: joinLines (p.panelLines word answers rounds) := by
    have hheading : word.toList <+: answersHeading word synthesisAnswerExcerptMaxChars := by
      rw [answersHeading, String.toList_append, String.toList_append, String.toList_append,
        List.append_assoc, List.append_assoc]
      exact List.prefix_append _ _
    rw [panelLines, List.cons_append, List.cons_append]
    exact hheading.trans (prefix_joinLines _ _)
  have hletters : u.letters word.toList <+: u.letters
      (joinLines (p.panelLines word answers rounds)) := by
    obtain ⟨rest, hrest⟩ := hopens
    rw [← hrest, UnicodeData.letters_append]
    exact List.prefix_append _ _
  refine noStraddle_of_start hletters ?_
  rw [panelSizeWord.eq_def] at hword
  split at hword <;> cases hword
  · rw [hascii.letters_eq (forall_mem_of_all (by decide))]
    decide +kernel
  · rw [hascii.letters_eq (forall_mem_of_all (by decide))]
    decide +kernel
  · rw [hascii.letters_eq (forall_mem_of_all (by decide))]
    decide +kernel

theorem length_fence (text : Text) :
    (u.fence text).length = untrustedBegin.length + untrustedEnd.length + 2
      + (u.neutralizeDelimiters text).length := by
  rw [UnicodeData.fence, List.length_append, List.length_cons, List.length_append, List.length_cons]
  omega

/-- The lines of the previous answer are neutralized as they are on their own. -/
theorem neutralizeDelimiters_priorLines (hascii : u.KeepsAscii) {word : String} {panelSize : ℕ}
    (hword : panelSizeWord panelSize = .ok word) (heading prior : Text)
    (answers : List PromptAnswer) (rounds : List PromptRound) :
    (u.neutralizeDelimiters
      (joinLines ([heading, prior, []] ++ p.panelLines word answers rounds))).length
      = (u.neutralizeDelimiters (joinLines [heading, prior, []] ++ ['\n'])).length
        + (u.neutralizeDelimiters (joinLines (p.panelLines word answers rounds))).length := by
  have hbreak : u.lettersOf '\n' = [] := hascii.lettersOf_eq (by decide)
  have hplain : u.isBracket '\n' = false := by
    rw [UnicodeData.isBracket, hascii.nfkc '\n' (by decide)]
    rfl
  have hempty : u.neutralizeDelimiters [] = [] := rfl
  have hlines : p.panelLines word answers rounds ≠ [] := by
    rw [panelLines, List.cons_append, List.cons_append]
    exact List.cons_ne_nil _ _
  rw [joinLines_append (List.cons_ne_nil _ _) hlines,
    u.neutralizeDelimiters_append hbreak hplain
      (noStraddle_panelLines hascii hword _ answers rounds),
    u.neutralizeDelimiters_append hbreak hplain (noStraddle_nil _ _), hempty]
  simp only [List.length_append, List.length_cons, List.length_nil]
  omega

theorem synthesisUserPrompt_eq {word : String} {panelSize : ℕ}
    (hword : panelSizeWord panelSize = .ok word) (answers : List PromptAnswer)
    (rounds : List PromptRound) (failedCount coverageHundredths : ℕ) (coverageTargetMet : Bool)
    (context : FollowUpContext) :
    p.synthesisUserPrompt u answers rounds failedCount coverageHundredths coverageTargetMet
      context panelSize
      = .ok (joinLines (synthesisDirectives failedCount coverageHundredths coverageTargetMet
          (p.priorSynthesisPromptParts context).1) ++ "\n\n".toList
        ++ u.fence (joinLines (p.synthesisLines word answers rounds context))) := by
  rw [synthesisUserPrompt, hword]
  rfl

theorem length_joinLines_directives (failedCount coverageHundredths : ℕ) (coverageTargetMet : Bool)
    {directive : Text} (hdirective : directive ≠ []) :
    (joinLines
      (synthesisDirectives failedCount coverageHundredths coverageTargetMet directive)).length
      = (joinLines (synthesisDirectives failedCount coverageHundredths coverageTargetMet [])).length
        + ('\n' :: directive).length := by
  rw [synthesisDirectives, synthesisDirectives, if_neg hdirective, if_pos rfl, List.append_nil,
    joinLines_append (List.cons_ne_nil _ _) (List.cons_ne_nil _ _), List.length_append,
    joinLines_singleton]

/-- There is no previous answer, or a directive announces it and three lines carry it. -/
theorem priorSynthesisPromptParts_cases (context : FollowUpContext) :
    p.priorSynthesisPromptParts context = ([], [])
      ∨ ∃ directive heading prior, directive ≠ []
        ∧ p.priorSynthesisPromptParts context = (directive, [heading, prior, []]) := by
  rw [priorSynthesisPromptParts]
  split_ifs with hnone
  · exact Or.inl rfl
  · exact Or.inr ⟨_, _, _, List.cons_ne_nil _ _, rfl⟩

theorem priorSynthesisPromptParts_none : p.priorSynthesisPromptParts none = ([], []) := by
  have hempty : flattenForPrompt (FollowUpContext.priorSynthesis none) finalSynthesisMaxChars
      = [] := by
    rw [flattenForPrompt, foldl_replaceBySpace]
    exact List.take_nil
  rw [priorSynthesisPromptParts, hempty]
  exact if_pos rfl

/-- The surcharge of a follow-up is what its previous answer adds to a section's user prompt. -/
theorem follow_up_surcharge_exact (p : PanelTables) (u : UnicodeData) (hascii : u.KeepsAscii)
    {panelSize : ℕ} (hsize : 2 ≤ panelSize ∧ panelSize ≤ 4) (answers : List PromptAnswer)
    (rounds : List PromptRound) (failedCount coverageHundredths : ℕ) (coverageTargetMet : Bool)
    (context : FollowUpContext) :
    ∃ fresh followUp,
      p.synthesisUserPrompt u answers rounds failedCount coverageHundredths coverageTargetMet
        none panelSize
          = .ok fresh
        ∧ p.synthesisUserPrompt u answers rounds failedCount coverageHundredths
            coverageTargetMet context
            panelSize = .ok followUp
        ∧ followUp.length = fresh.length + p.followUpUserPromptExtraChars u context := by
  obtain ⟨word, hword⟩ := exists_panelSizeWord hsize
  refine ⟨_, _, synthesisUserPrompt_eq hword _ _ _ _ _ _,
    synthesisUserPrompt_eq hword _ _ _ _ _ _, ?_⟩
  rw [followUpUserPromptExtraChars, synthesisLines, synthesisLines, priorSynthesisPromptParts_none]
  rcases p.priorSynthesisPromptParts_cases context with hnone |
    ⟨directive, heading, prior, hne, hparts⟩
  · rw [hnone]
    rfl
  · rw [hparts]
    dsimp only
    rw [if_neg hne, List.length_append, List.length_append, length_fence,
      length_joinLines_directives _ _ _ hne, neutralizeDelimiters_priorLines hascii hword,
      List.length_append, List.length_append, length_fence, List.nil_append]
    omega

/-- A previous answer that hides a marker is priced as it is sent. -/
theorem follow_up_surcharge_exact_hidden :
    ∃ fresh followUp,
      lineBreakTables.synthesisUserPrompt UnicodeData.ligatureUnicode
        [shortAnswer 1 "Yes.".toList] [] 0 50 false
          none 2 = .ok fresh
        ∧ lineBreakTables.synthesisUserPrompt UnicodeData.ligatureUnicode
            [shortAnswer 1 "Yes.".toList] [] 0 50
            false (some [("prior_synthesis", some UnicodeData.hiddenMarker)]) 2 = .ok followUp
        ∧ followUp.length = fresh.length
            + lineBreakTables.followUpUserPromptExtraChars UnicodeData.ligatureUnicode
            (some [("prior_synthesis", some UnicodeData.hiddenMarker)]) :=
  follow_up_surcharge_exact lineBreakTables UnicodeData.ligatureUnicode
    UnicodeData.ligatureUnicode_keepsAscii
    ⟨by decide, by decide⟩ _ _ _ _ _ _

end PanelTables

end Quorum
