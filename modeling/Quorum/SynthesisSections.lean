import Quorum.SynthesisLength

/-! The five stored sections of a final synthesis and the request that carries them back as the
context of a follow-up. -/

namespace Quorum

/-- How much of a generated section survives to the user. -/
def synthesisSectionMaxChars : Nat := ⌊(synthesisSectionMaxTokens : ℚ≥0) * charsPerToken⌋₊

def highStakesNoticeFragment : Text :=
  "This summary is decision support only and is not medical, ".toList
    ++ "legal, financial, safety, or regulated professional advice.".toList

def finalSynthesisMaxChars : Nat :=
  5 * synthesisSectionMaxChars + highStakesNoticeFragment.length

/-- What a section's call came to: its builder raised, no call was made, or a reply came. -/
inductive SectionReply where
  | raised
  | unsent
  | replied (answerText : Text)

/-- The section's own template and the reply to its call. -/
structure SectionInput where
  templated : Text
  reply : SectionReply

/-- What the Recommendation's template states of the panel, and the reply to its call. -/
structure RecommendationInput where
  answerCount : Nat
  sourcedAnswerCount : Nat
  targetMet : Bool
  failedCount : Nat
  reply : SectionReply
  sourced_le : sourcedAnswerCount ≤ answerCount
  answered_le : answerCount ≤ maxSlotCount
  failed_le : failedCount ≤ maxSlotCount

/-- What the other four sections and the notice are built from. -/
structure SectionInputs where
  anySuccessful : Bool
  consensus : SectionInput
  disagreement : SectionInput
  sourceSupport : SectionInput
  uncertainty : SectionInput
  highStakesRequired : Bool

/-- The prose fields of a final synthesis. -/
structure SynthesisSections where
  consensus : Text
  disagreement : Text
  sourceSupport : Text
  uncertainty : Text
  recommendation : Text
  highStakesNotice : Option Text

namespace SynthesisSections

def fields (s : SynthesisSections) : List Text :=
  [s.consensus, s.disagreement, s.sourceSupport, s.uncertainty, s.recommendation]
    ++ s.highStakesNotice.toList

/-- The five stored sections and the notice together, as a follow-up re-sends them. -/
def resent (s : SynthesisSections) : Text :=
  s.fields.flatten

end SynthesisSections

/-- The text of a section whose builder raised. -/
def failedSection (label : String) : Text :=
  ("The " ++ label ++ " section could not be produced for this run.").toList

def noUsableResponse : Text :=
  "No model returned a usable response, so no consensus could be ".toList
    ++ "formed. This run is reported as a partial result and the failed ".toList
    ++ "steps are listed separately.".toList

/-- One sentence that is true for every state where the target is missed. -/
def coverageShortfallSentence (total sourced : Nat) : String :=
  if total = 0 then "No model answers came back, so nothing could be sourced. "
  else
    "Only " ++ toString sourced ++ " of " ++ toString total
      ++ (if total = 1 then " answer" else " answers")
        ++ " that came back carried a primary source. "

def recommendationTemplate (r : RecommendationInput) : Text :=
  if r.targetMet ∧ r.failedCount = 0 then
    "Recommendation: act on the consensus only after a human reviewer has ".toList
      ++ "audited the visible source references. The source coverage target is ".toList
      ++ "met, but this is decision support only and is not medical, legal, ".toList
      ++ "financial, safety, or regulated professional advice.".toList
  else
    ("Recommendation: do not act on the consensus yet. "
      ++ (if r.targetMet then "" else coverageShortfallSentence r.answerCount r.sourcedAnswerCount)
      ++ (if 0 < r.failedCount then
          "At least one model (" ++ toString r.failedCount
            ++ ") failed to return a usable response. "
        else "")
      ++ "This is decision support only and is not medical, legal, financial, safety, or regulated "
      ++ "professional advice.").toList

namespace TextTables

variable (p : TextTables)

/-- The text a section is cut from: the stripped reply, or the template when nothing visible
came. -/
def sectionSource (templated : Text) : SectionReply → Text
  | .raised => []
  | .unsent => templated
  | .replied answerText =>
      if p.isVisible (p.strip answerText) then p.strip answerText else templated

def buildSection (label : String) (input : SectionInput) : Text :=
  match input.reply with
  | .raised => failedSection label
  | reply => p.truncateSection synthesisSectionMaxChars (p.sectionSource input.templated reply)

def buildConsensus (anySuccessful : Bool) (input : SectionInput) : Text :=
  if anySuccessful then p.buildSection "consensus" input else noUsableResponse

def buildRecommendation (r : RecommendationInput) : Text :=
  match r.reply with
  | .raised => failedSection "recommendation"
  | reply => p.truncateRecommendation (p.sectionSource (recommendationTemplate r) reply)

def produceFinalSynthesis (inputs : SectionInputs) (r : RecommendationInput) :
    SynthesisSections :=
  { consensus := p.buildConsensus inputs.anySuccessful inputs.consensus
    disagreement := p.buildSection "disagreement" inputs.disagreement
    sourceSupport := p.buildSection "source support" inputs.sourceSupport
    uncertainty := p.buildSection "uncertainty" inputs.uncertainty
    recommendation := p.buildRecommendation r
    highStakesNotice := if inputs.highStakesRequired then some highStakesNoticeFragment else none }

end TextTables

/-- How long each value of a request's context may be. -/
def contextMaxLengths : List (String × Nat) :=
  [("prior_question", 20000), ("prior_synthesis", finalSynthesisMaxChars)]

def contextKeysMessage : String :=
  "context may only contain ['prior_question', 'prior_synthesis']"

/-- The length check of each value of the context in turn. -/
def checkContextValues : List (String × Option Text) → Except String Unit
  | [] => .ok ()
  | (key, value) :: rest =>
      match value, contextMaxLengths.lookup key with
      | some value, some limit =>
          if value.length > limit then
            .error ("context." ++ key ++ " may be at most " ++ toString limit
              ++ " characters; got " ++ toString value.length)
          else checkContextValues rest
      | _, _ => checkContextValues rest

/-- Validate a context mapping, or raise `ValueError`. -/
def checkContext : Option (List (String × Option Text)) → Except String Unit
  | none => .ok ()
  | some context =>
      if context.any fun entry => (contextMaxLengths.lookup entry.1).isNone then
        .error contextKeysMessage
      else checkContextValues context

theorem synthesisSectionMaxChars_eq : synthesisSectionMaxChars = 12000 := by
  have hproduct : (synthesisSectionMaxTokens : ℚ≥0) * charsPerToken = (12000 : ℕ) := by
    norm_num [synthesisSectionMaxTokens, charsPerToken]
  rw [synthesisSectionMaxChars, hproduct, Nat.floor_natCast]

theorem checkContext_priorSynthesis_iff (value : Text) :
    checkContext (some [("prior_synthesis", some value)]) = .ok ()
      ↔ value.length ≤ finalSynthesisMaxChars := by
  have hlookup : contextMaxLengths.lookup "prior_synthesis" = some finalSynthesisMaxChars := rfl
  simp only [checkContext, checkContextValues, List.any_cons, List.any_nil, hlookup,
    Option.isNone_some, Bool.or_false, Bool.false_eq_true, if_false]
  generalize finalSynthesisMaxChars = limit
  split_ifs with hlong
  · exact ⟨fun herror => (nomatch herror), fun hle => absurd hlong (Nat.not_lt.mpr hle)⟩
  · exact ⟨fun _ => Nat.not_lt.mp hlong, fun _ => rfl⟩

namespace TextTables

variable (p : TextTables)

theorem length_buildSection_le {label : String}
    (hlabel : (failedSection label).length ≤ synthesisSectionMaxChars) (input : SectionInput) :
    (p.buildSection label input).length ≤ synthesisSectionMaxChars := by
  have hmax : 1 ≤ synthesisSectionMaxChars := by rw [synthesisSectionMaxChars_eq]; omega
  rw [buildSection]
  split
  · exact hlabel
  · exact p.length_truncateSection_le _ hmax _

theorem length_failedSection_le {label : String} (hlabel : label.length ≤ 20) :
    (failedSection label).length ≤ synthesisSectionMaxChars := by
  have hopens : "The ".length = 4 := String.length_ofList
  have hcloses : " section could not be produced for this run.".length = 44 := String.length_ofList
  rw [failedSection, String.length_toList, String.length_append, String.length_append, hopens,
    hcloses, synthesisSectionMaxChars_eq]
  omega

theorem length_buildConsensus_le (anySuccessful : Bool) (input : SectionInput) :
    (p.buildConsensus anySuccessful input).length ≤ synthesisSectionMaxChars := by
  rw [buildConsensus]
  split
  · exact p.length_buildSection_le (length_failedSection_le (by decide)) input
  · have hlength : noUsableResponse.length = 154 := by
      unfold noUsableResponse
      rw [String.toList_ofList, String.toList_ofList, String.toList_ofList]
      rfl
    rw [synthesisSectionMaxChars_eq]
    omega

theorem length_toString_le {count : Nat} (h : count ≤ maxSlotCount) :
    (toString count).length ≤ 1 := by
  have hall : ∀ count ≤ maxSlotCount, (toString count).length ≤ 1 := by decide +kernel
  exact hall count h

theorem length_coverageShortfallSentence_le {total sourced : Nat} (htotal : total ≤ maxSlotCount)
    (hsourced : sourced ≤ total) : (coverageShortfallSentence total sourced).length ≤ 100 := by
  have hnone : "No model answers came back, so nothing could be sourced. ".length ≤ 100 := by
    rw [String.length_ofList]
    decide
  have hlast : " that came back carried a primary source. ".length = 42 := String.length_ofList
  have hpieces : "Only ".length = 5 ∧ " of ".length = 4 ∧ " answer".length = 7
      ∧ " answers".length = 8 :=
    ⟨String.length_ofList, String.length_ofList, String.length_ofList, String.length_ofList⟩
  have hdigits := length_toString_le htotal
  have hdigits' := length_toString_le (hsourced.trans htotal)
  rw [coverageShortfallSentence]
  split
  · exact hnone
  · simp only [String.length_append]
    split <;> omega

theorem length_recommendationTemplate_le (r : RecommendationInput) :
    (recommendationTemplate r).length ≤ 1000 := by
  have hsentence := length_coverageShortfallSentence_le r.answered_le r.sourced_le
  have hdigits := length_toString_le r.failed_le
  have hpieces : "Recommendation: do not act on the consensus yet. ".length = 49
      ∧ "At least one model (".length = 20
      ∧ ") failed to return a usable response. ".length = 38
      ∧ "This is decision support only and is not medical, legal, financial, safety, or regulated ".length = 89
      ∧ "professional advice.".length = 20 ∧ "".length = 0 :=
    ⟨String.length_ofList, String.length_ofList, String.length_ofList, String.length_ofList,
      String.length_ofList, rfl⟩
  rw [recommendationTemplate]
  split
  · rw [String.toList_ofList, String.toList_ofList, String.toList_ofList, String.toList_ofList]
    decide +kernel
  · simp only [String.length_toList, String.length_append]
    split <;> split <;> try simp only [String.length_append]
    all_goals omega

/-- A visible reply to the Recommendation's call is, from the caveat on, no longer than a
section. -/
def RecommendationFits (reply : SectionReply) : Prop :=
  ∀ answerText, reply = .replied answerText → p.isVisible (p.strip answerText) →
    p.CaveatFits synthesisSectionMaxChars (p.strip answerText)

theorem caveatFits_recommendationTemplate (r : RecommendationInput) :
    p.CaveatFits synthesisSectionMaxChars (recommendationTemplate r) := by
  have hlength := length_recommendationTemplate_le r
  intro caveatIndex _
  have hcut := p.length_rstrip_le ((recommendationTemplate r).drop caveatIndex)
  rw [List.length_drop] at hcut
  rw [synthesisSectionMaxChars_eq]
  omega

theorem length_buildRecommendation_le_iff (r : RecommendationInput) :
    (p.buildRecommendation r).length ≤ synthesisSectionMaxChars
      ↔ p.RecommendationFits r.reply := by
  have hlimit : recommendationMaxChars ≤ synthesisSectionMaxChars := by
    rw [synthesisSectionMaxChars_eq, recommendationMaxChars]
    omega
  have htemplate := p.caveatFits_recommendationTemplate r
  rw [buildRecommendation, RecommendationFits]
  cases hreply : r.reply with
  | raised =>
      refine ⟨fun _ answerText heq => (nomatch heq), fun _ => ?_⟩
      exact length_failedSection_le (by decide)
  | unsent =>
      refine ⟨fun _ answerText heq => (nomatch heq), fun _ => ?_⟩
      exact (p.length_truncateRecommendation_le_iff hlimit _).mpr htemplate
  | replied answerText =>
      dsimp only
      rw [p.length_truncateRecommendation_le_iff hlimit, sectionSource]
      split_ifs with hvisible
      · refine ⟨fun h other heq _ => ?_, fun h => h answerText rfl hvisible⟩
        rw [← SectionReply.replied.inj heq]
        exact h
      · refine ⟨fun _ other heq hvisible' => ?_, fun _ => htemplate⟩
        rw [← SectionReply.replied.inj heq] at hvisible'
        exact absurd hvisible' hvisible

theorem length_resent (inputs : SectionInputs) (r : RecommendationInput) :
    (p.produceFinalSynthesis inputs r).resent.length
      = (p.buildConsensus inputs.anySuccessful inputs.consensus).length
        + (p.buildSection "disagreement" inputs.disagreement).length
        + (p.buildSection "source support" inputs.sourceSupport).length
        + (p.buildSection "uncertainty" inputs.uncertainty).length
        + (p.buildRecommendation r).length
        + (if inputs.highStakesRequired then highStakesNoticeFragment.length else 0) := by
  cases hrequired : inputs.highStakesRequired with
  | false =>
      simp [SynthesisSections.resent, SynthesisSections.fields, produceFinalSynthesis, hrequired]
      omega
  | true =>
      simp [SynthesisSections.resent, SynthesisSections.fields, produceFinalSynthesis, hrequired]
      omega

theorem length_resent_le {r : RecommendationInput} (h : p.RecommendationFits r.reply)
    (inputs : SectionInputs) :
    (p.produceFinalSynthesis inputs r).resent.length ≤ finalSynthesisMaxChars := by
  have hrecommendation := (p.length_buildRecommendation_le_iff r).mpr h
  have hconsensus := p.length_buildConsensus_le inputs.anySuccessful inputs.consensus
  have hdisagreement : (p.buildSection "disagreement" inputs.disagreement).length
      ≤ synthesisSectionMaxChars :=
    p.length_buildSection_le (length_failedSection_le (by decide)) _
  have hsource : (p.buildSection "source support" inputs.sourceSupport).length
      ≤ synthesisSectionMaxChars :=
    p.length_buildSection_le (length_failedSection_le (by decide)) _
  have huncertainty : (p.buildSection "uncertainty" inputs.uncertainty).length
      ≤ synthesisSectionMaxChars :=
    p.length_buildSection_le (length_failedSection_le (by decide)) _
  rw [length_resent, finalSynthesisMaxChars]
  split_ifs <;> omega

/-- A section of the greatest length, made of one visible character. -/
def fullSection (ch : Char) : SectionInput :=
  { templated := [], reply := .replied (List.replicate synthesisSectionMaxChars ch) }

/-- Four sections of the greatest length and the notice. -/
def fullSections (ch : Char) : SectionInputs :=
  { anySuccessful := true
    consensus := fullSection ch
    disagreement := fullSection ch
    sourceSupport := fullSection ch
    uncertainty := fullSection ch
    highStakesRequired := true }

variable {p}

theorem strip_replicate {ch : Char} (hspace : p.isspace ch = false) (count : Nat) :
    p.strip (List.replicate count ch) = List.replicate count ch := by
  have hkeep : ∀ n, (List.replicate n ch).dropWhile p.isspace = List.replicate n ch := by
    intro n
    cases n with
    | zero => rfl
    | succ n => rw [List.replicate_succ, List.dropWhile_cons_of_neg (by simp [hspace])]
  rw [strip, lstrip, hkeep, rstrip, List.rdropWhile, List.reverse_replicate, hkeep,
    List.reverse_replicate]

theorem isVisible_replicate {ch : Char} (hspace : p.isspace ch = false)
    (hvisible : p.invisible ch = false) {count : Nat} (hcount : 0 < count) :
    p.isVisible (List.replicate count ch) = true := by
  rw [isVisible, Bool.not_eq_true', List.all_eq_false]
  exact ⟨ch, List.mem_replicate.mpr ⟨by omega, rfl⟩, by simp [hspace, hvisible]⟩

theorem buildSection_fullSection {ch : Char} (hspace : p.isspace ch = false)
    (hvisible : p.invisible ch = false) (label : String) :
    p.buildSection label (fullSection ch) = List.replicate synthesisSectionMaxChars ch := by
  have hpos : 0 < synthesisSectionMaxChars := by rw [synthesisSectionMaxChars_eq]; omega
  have hsource : p.sectionSource [] (.replied (List.replicate synthesisSectionMaxChars ch))
      = List.replicate synthesisSectionMaxChars ch := by
    rw [sectionSource, strip_replicate hspace, if_pos (isVisible_replicate hspace hvisible hpos)]
  show p.truncateSection synthesisSectionMaxChars
    (p.sectionSource [] (.replied (List.replicate synthesisSectionMaxChars ch))) = _
  rw [hsource, truncateSection_of_length_le]
  rw [List.length_replicate]

theorem length_resent_fullSections {ch : Char} (hspace : p.isspace ch = false)
    (hvisible : p.invisible ch = false) (r : RecommendationInput) :
    (p.produceFinalSynthesis (fullSections ch) r).resent.length
      = 4 * synthesisSectionMaxChars + (p.buildRecommendation r).length
        + highStakesNoticeFragment.length := by
  have hsection : ∀ label, (p.buildSection label (fullSection ch)).length
      = synthesisSectionMaxChars := by
    intro label
    rw [buildSection_fullSection hspace hvisible, List.length_replicate]
  rw [length_resent]
  simp only [fullSections, buildConsensus, hsection, if_true]
  omega

theorem exists_visible_char {text : Text} (h : p.isVisible text) :
    ∃ ch, p.isspace ch = false ∧ p.invisible ch = false := by
  rw [isVisible, Bool.not_eq_true', List.all_eq_false] at h
  obtain ⟨ch, -, hch⟩ := h
  refine ⟨ch, ?_⟩
  simpa using hch

/-- A recommendation longer than a section leaves four full sections and the notice no room. -/
theorem fullSections_too_long {ch : Char} (hspace : p.isspace ch = false)
    (hvisible : p.invisible ch = false) {r : RecommendationInput}
    (h : ¬ p.RecommendationFits r.reply) :
    finalSynthesisMaxChars < (p.produceFinalSynthesis (fullSections ch) r).resent.length := by
  have hlong := (p.length_buildRecommendation_le_iff r).not.mpr h
  rw [length_resent_fullSections hspace hvisible, finalSynthesisMaxChars]
  omega

theorem exists_too_long {r : RecommendationInput} (h : ¬ p.RecommendationFits r.reply) :
    ∃ inputs, finalSynthesisMaxChars < (p.produceFinalSynthesis inputs r).resent.length := by
  have hnot := h
  rw [RecommendationFits] at hnot
  push Not at hnot
  obtain ⟨answerText, -, hvisible, -⟩ := hnot
  obtain ⟨ch, hspace, hvisible⟩ := exists_visible_char hvisible
  exact ⟨fullSections ch, fullSections_too_long hspace hvisible h⟩

variable (p)

/-- The app accepts its own output as a follow-up, whatever the other sections' replies were,
exactly when the Recommendation's reply is short enough from the caveat on. -/
theorem own_output_accepted_iff (r : RecommendationInput) :
    (∀ inputs, (p.produceFinalSynthesis inputs r).resent.length ≤ finalSynthesisMaxChars
      ∧ checkContext (some
          [("prior_synthesis", some (p.produceFinalSynthesis inputs r).resent)]) = .ok ())
      ↔ p.RecommendationFits r.reply := by
  constructor
  · intro haccepted
    by_contra hlong
    obtain ⟨inputs, hrefused⟩ := exists_too_long hlong
    exact absurd (haccepted inputs).1 (Nat.not_le.mpr hrefused)
  · intro hfits inputs
    have hlength := p.length_resent_le hfits inputs
    exact ⟨hlength, (checkContext_priorSynthesis_iff _).mpr hlength⟩

/-- A Recommendation that opens with the caveat and goes on for as many characters as a section. -/
def caveatFirst : Text :=
  caveatMarker ++ List.replicate synthesisSectionMaxChars 'a'

/-- A panel of four sourced answers whose Recommendation opens with the caveat. -/
def caveatFirstRecommendation : RecommendationInput :=
  { answerCount := 4, sourcedAnswerCount := 4, targetMet := true, failedCount := 0
    reply := .replied caveatFirst
    sourced_le := le_rfl, answered_le := by decide, failed_le := by decide }

theorem lstrip_caveatFirst : asciiTables.lstrip caveatFirst = caveatFirst := by
  have hhead : caveatMarker = 'd' :: caveatMarker.tail := by
    unfold caveatMarker
    rw [String.toList_ofList]
    rfl
  rw [caveatFirst, hhead, List.cons_append, lstrip, List.dropWhile_cons_of_neg (by decide)]

theorem rstrip_caveatFirst : asciiTables.rstrip caveatFirst = caveatFirst := by
  have hsplit : caveatFirst
      = (caveatMarker ++ List.replicate (synthesisSectionMaxChars - 1) 'a') ++ ['a'] := by
    rw [List.append_assoc, ← List.replicate_succ', caveatFirst, synthesisSectionMaxChars_eq]
  rw [rstrip, hsplit, List.rdropWhile_concat_neg _ _ _ (by decide)]

theorem isVisible_caveatFirst : asciiTables.isVisible caveatFirst := by
  have hhead : caveatMarker = 'd' :: caveatMarker.tail := by
    unfold caveatMarker
    rw [String.toList_ofList]
    rfl
  rw [caveatFirst, hhead, List.cons_append, isVisible, List.all_cons]
  simp [asciiTables]

theorem caveatIndex_caveatFirst : asciiTables.caveatIndex caveatFirst = some 0 := by
  have hlower : caveatMarker.map Char.toLower = caveatMarker := by
    unfold caveatMarker
    rw [String.toList_ofList]
    rfl
  refine find_eq_zero ?_
  show caveatMarker <+: caveatFirst.map Char.toLower
  rw [caveatFirst, List.map_append, hlower]
  exact List.prefix_append _ _

theorem caveatFirst_not_fits : ¬ asciiTables.RecommendationFits (.replied caveatFirst) := by
  have hmarker : caveatMarker.length = 21 := by
    unfold caveatMarker
    rw [String.toList_ofList]
    rfl
  have hstrip : asciiTables.strip caveatFirst = caveatFirst := by
    rw [strip, lstrip_caveatFirst, rstrip_caveatFirst]
  intro hfits
  have hlength := hfits caveatFirst rfl
  rw [hstrip] at hlength
  have hshort := hlength isVisible_caveatFirst 0 caveatIndex_caveatFirst
  rw [List.drop_zero, rstrip_caveatFirst, caveatFirst, List.length_append, List.length_replicate,
    hmarker] at hshort
  omega

/-- Four full sections, the notice and such a Recommendation are refused as a follow-up's
context. -/
theorem caveatFirst_refused :
    let s := asciiTables.produceFinalSynthesis (fullSections 'a') caveatFirstRecommendation
    ¬ s.resent.length ≤ finalSynthesisMaxChars
      ∧ checkContext (some [("prior_synthesis", some s.resent)]) ≠ .ok () := by
  have hlong : finalSynthesisMaxChars
      < (asciiTables.produceFinalSynthesis (fullSections 'a')
        caveatFirstRecommendation).resent.length :=
    fullSections_too_long (by decide) rfl caveatFirst_not_fits
  refine ⟨Nat.not_le.mpr hlong, ?_⟩
  rw [Ne, checkContext_priorSynthesis_iff]
  exact Nat.not_le.mpr hlong

end TextTables

end Quorum
