import Quorum.JudgeSelection
import Quorum.JudgeService

/-! What a quick answer serves of its judge (`quick_verdict`): a claim's quote is served when the
answer shows it, read once as the page shows it and once as it was written, and the level is never
the best one when the judge found a contradiction or had no source. -/

namespace Quorum

def judgeQuickMaxClaims : ℕ := 8

def judgeQuickMaxQuoteLen : ℕ := 300

def parseLimitChars : ℕ := 16384

def wellSupportedMinScore : ℕ := 4

inductive QuickVerdictLevel
  | wellSupported
  | partlySupported
  | notSupported
  | notChecked
deriving DecidableEq

/-- A child of an inline token, as far as it is read. -/
inductive InlineChild
  | text (content : Text)
  | codeInline (content : Text)
  | softbreak
  | hardbreak
  | other

/-- A token of the parsed Markdown. -/
inductive BlockToken
  | inline (children : List InlineChild)
  | other

/-- The strings' methods, and the Markdown parser. -/
structure QuickTables extends PageTables where
  isalnum : Char → Bool
  parse : Text → List BlockToken

structure QuickVerdictClaim where
  quote : Text
  source : Option ℤ
  support : JudgeClaimSupport
deriving DecidableEq

structure QuickVerdict where
  level : QuickVerdictLevel
  faithfulness : Option ℕ := none
  grounding : Option ℕ := none
  hallucinationRisk : Option HallucinationRisk := none
  reasons : Option (List Text) := none
  sourcesChecked : List (Text × Text)
  judgeStatus : Option JudgeCallOutcome
  claims : List QuickVerdictClaim := []
  claimsDropped : ℕ := 0

/-! ### Scores -/

namespace JudgeVerdict

def faithfulness : JudgeVerdict → ℕ
  | .panel verdict => verdict.faithfulness
  | .quick verdict => verdict.faithfulness

def grounding : JudgeVerdict → ℕ
  | .panel verdict => verdict.grounding
  | .quick verdict => verdict.grounding

def hallucinationRisk : JudgeVerdict → HallucinationRisk
  | .panel verdict => verdict.hallucinationRisk
  | .quick verdict => verdict.hallucinationRisk

/-- The claims of a quick verdict; a panel verdict has none. -/
def claims : JudgeVerdict → List EvalJudgeQuickClaim
  | .panel _ => []
  | .quick verdict => verdict.claims

/-- `verdict_supports_verification` of a verdict of either kind. -/
def supportsVerification (verdict : JudgeVerdict) : Bool :=
  if verdict.hallucinationRisk = .high then false
  else if verdict.grounding < judgeSupportMinGrounding then false
  else decide (judgeSupportMinFaithfulness ≤ verdict.faithfulness)

end JudgeVerdict

/-- `verdict_level`. -/
def verdictLevel : Option JudgeVerdict → QuickVerdictLevel
  | none => .notChecked
  | some verdict =>
      if verdict.supportsVerification = false then .notSupported
      else if wellSupportedMinScore ≤ verdict.faithfulness
        ∧ wellSupportedMinScore ≤ verdict.grounding
          ∧ verdict.hallucinationRisk = .low then .wellSupported
      else .partlySupported

def HallucinationRisk.text : HallucinationRisk → Text
  | .low => "low".toList
  | .medium => "medium".toList
  | .high => "high".toList

/-- `reasons_for`. -/
def reasonsFor (verdict : JudgeVerdict) (sourceCount : ℕ) : List Text :=
  ["The judge scored how closely the answer keeps to its cited sources ".toList
      ++ (toString verdict.faithfulness).toList ++ " out of 5.".toList,
    "It scored how well the answer's citations point at those sources ".toList
      ++ (toString verdict.grounding).toList ++ " out of 5.".toList,
    "It rated the risk of claims the sources do not support as ".toList
      ++ verdict.hallucinationRisk.text ++ ".".toList,
    if sourceCount = 0 then "The answer cited no source the judge could check.".toList
    else
      "The judge checked the answer against ".toList ++ (toString sourceCount).toList
        ++ (if sourceCount = 1 then " source.".toList else " sources.".toList)]

/-! ### Readings -/

/-- Each pair of a mark dropped, from the left: `text.replace(mark + mark, "")`. -/
def dropPairs (mark : Char) : Text → Text
  | first :: second :: rest =>
      if first = mark ∧ second = mark then dropPairs mark rest
      else first :: dropPairs mark (second :: rest)
  | rest => rest

namespace QuickTables

variable (q : QuickTables)

/-- `" ".join(text.split())`. -/
def collapse (text : Text) : Text := [' '].intercalate ((text.splitOnP q.isspace).filter (· ≠ []))

/-- Stars and underscores dropped, but between two letters or digits. -/
def dropMarks : Option Char → Text → Text
  | _, [] => []
  | before, ch :: rest =>
      if (ch = '*' ∨ ch = '_') ∧ ¬ (before.any q.isalnum ∧ rest.head?.any q.isalnum) then
        dropMarks (some ch) rest
      else ch :: dropMarks (some ch) rest

/-- `_raw_reading`. -/
def rawReading (text : Text) : Text :=
  q.dropMarks none (dropPairs '_' (dropPairs '*' ((q.collapse text).filter (· ≠ '`'))))

/-- What a child shows. -/
def shown : InlineChild → Text
  | .text content => content
  | .codeInline content => content
  | .softbreak => [' ']
  | .hardbreak => [' ']
  | .other => []

/-- The text of a block. -/
def blockText : BlockToken → Text
  | .inline children => q.collapse (children.flatMap shown)
  | .other => []

/-- `displayed_text_blocks`. -/
def displayedTextBlocks (markdown : Text) : List Text :=
  if parseLimitChars < markdown.length then []
  else ((q.parse markdown).map q.blockText).filter (· ≠ [])

/-- No letter or digit stands before an index. -/
def beforeOk (block : Text) (index : ℕ) : Bool := index = 0 || !(block[index - 1]?).any q.isalnum

/-- No letter or digit stands at an index. -/
def afterOk (block : Text) (index : ℕ) : Bool :=
  index = block.length || !(block[index]?).any q.isalnum

/-- The loop of `_bounded_in` over the occurrences, overlapping ones among them. -/
def boundedFrom (quote block : Text) (start : ℕ) : Bool :=
  if _h : block.length < start then false
  else
    match find quote (block.drop start) with
    | none => false
    | some offset =>
        if q.beforeOk block (start + offset)
          && q.afterOk block (start + offset + quote.length) then true
        else boundedFrom quote block (start + offset + 1)
termination_by block.length + 1 - start
decreasing_by omega

/-- `_bounded_in`. -/
def boundedIn (quote block : Text) : Bool := q.boundedFrom quote block 0

/-! ### Claims -/

/-- The quote of a claim as it is displayed. -/
def displayedQuote (claim : EvalJudgeQuickClaim) : Text :=
  [' '].intercalate (q.displayedTextBlocks claim.quote)

/-- The checks of one claim, in the loop's order. -/
def servedClaim (answerBlocks : List Text) (rawAnswer : Text) (sourceCount : ℕ)
    (claim : EvalJudgeQuickClaim) :
    Option QuickVerdictClaim :=
  let quote := q.displayedQuote claim
  if quote = [] ∨ judgeQuickMaxQuoteLen < quote.length then none
  else if ¬ answerBlocks.any (q.boundedIn quote) then none
  else if (find quote rawAnswer).isNone ∨ (find "<br".toList (q.lower quote)).isSome then none
  else if claim.source.any fun source => !decide (1 ≤ source ∧ source ≤ (sourceCount : ℤ)) then none
  else if decide (claim.support = .unsourced) ≠ claim.source.isNone then none
  else some { quote, source := claim.source, support := claim.support }

/-- `served_claims`. -/
def servedClaims (claims : List EvalJudgeQuickClaim) (answerText : Text) (sourceCount : ℕ) :
    List QuickVerdictClaim × ℕ :=
  let answerBlocks := q.displayedTextBlocks answerText
  let rawAnswer := q.rawReading answerText
  let kept :=
    (claims.take judgeQuickMaxClaims).filterMap (q.servedClaim answerBlocks rawAnswer sourceCount)
  (kept, claims.length - kept.length)

/-- `build_quick_verdict`. -/
def buildQuickVerdict (verdict : Option JudgeVerdict) (judgeStatus : Option JudgeCallOutcome)
    (initialAnswers : List SourcedAnswer) : QuickVerdict :=
  match verdict with
  | none => { level := verdictLevel none, sourcesChecked := [], judgeStatus }
  | some verdict =>
      let sources := q.judgeEvidenceSources initialAnswers
      let level := verdictLevel (some verdict)
      let level := if level = .wellSupported ∧ sources = [] then .partlySupported else level
      let answerText := (initialAnswers.head?.map SourcedAnswer.answerText).getD []
      let served := match verdict with
        | .quick quick => q.servedClaims quick.claims answerText sources.length
        | .panel _ => ([], 0)
      let level :=
        if level = .wellSupported
            ∧ (verdict.claims.take judgeQuickMaxClaims).any fun claim =>
                claim.support = .contradicted then
          .partlySupported
        else level
      { level
        faithfulness := some verdict.faithfulness
        grounding := some verdict.grounding
        hallucinationRisk := some verdict.hallucinationRisk
        reasons := some (reasonsFor verdict sources.length)
        sourcesChecked := sources
        judgeStatus
        claims := served.1
        claimsDropped := served.2 }

/-! ### What is served -/

/-- A quote stands in a block with no letter or digit on either side. -/
def BoundedIn (quote block : Text) : Prop :=
  ∃ front back, block = front ++ quote ++ back
    ∧ (∀ ch, front.getLast? = some ch → q.isalnum ch = false)
    ∧ ∀ ch, back.head? = some ch → q.isalnum ch = false

/-- A claim whose quote the answer shows, whose source is one that the judge was shown, and whose
support agrees with it. -/
structure Servable (answerText : Text) (sourceCount : ℕ) (claim : EvalJudgeQuickClaim) : Prop where
  nonempty : q.displayedQuote claim ≠ []
  short : (q.displayedQuote claim).length ≤ judgeQuickMaxQuoteLen
  oneLine : ¬ "<br".toList <:+: q.lower (q.displayedQuote claim)
  written : q.displayedQuote claim <:+: q.rawReading answerText
  shownOnce : ∃ block ∈ q.displayedTextBlocks answerText, q.BoundedIn (q.displayedQuote claim) block
  inRange : ∀ source, claim.source = some source → 1 ≤ source ∧ source ≤ sourceCount
  sourced : claim.support = .unsourced ↔ claim.source = none

/-- A claim as it is served. -/
def served (claim : EvalJudgeQuickClaim) : QuickVerdictClaim :=
  { quote := q.displayedQuote claim, source := claim.source, support := claim.support }

section
variable {q}
variable {quote block : Text}

theorem find_isSome_iff {word text : Text} : (find word text).isSome = true ↔ word <:+: text := by
  cases hfind : find word text with
  | none =>
      refine iff_of_false nofun ?_
      rintro ⟨before, after, heq⟩
      exact find_eq_none hfind before after heq.symm
  | some index =>
      obtain ⟨after, hafter⟩ := (find_eq_some hfind).1
      refine iff_of_true rfl ⟨text.take index, after, ?_⟩
      rw [List.append_assoc, hafter, List.take_append_drop]

/-- The loop finds every bounded occurrence from its start on, the overlapping ones too. -/
theorem boundedFrom_iff (quote block : Text) (start : ℕ) :
    q.boundedFrom quote block start = true
      ↔ ∃ index, start ≤ index ∧ index ≤ block.length ∧ quote <+: block.drop index
        ∧ q.beforeOk block index = true ∧ q.afterOk block (index + quote.length) = true := by
  fun_induction QuickTables.boundedFrom q quote block start with
  | case1 start hpast =>
      refine iff_of_false Bool.false_ne_true ?_
      rintro ⟨index, hstart, hindex, -⟩
      omega
  | case2 start _ hnone =>
      refine iff_of_false Bool.false_ne_true ?_
      rintro ⟨index, hstart, -, hprefix, -⟩
      obtain ⟨after, hafter⟩ := hprefix
      refine find_eq_none hnone ((block.drop start).take (index - start)) after ?_
      have hdrop : block.drop index = (block.drop start).drop (index - start) := by
        rw [List.drop_drop, Nat.add_sub_cancel' hstart]
      rw [List.append_assoc, hafter, hdrop, List.take_append_drop]
  | case3 start hstart offset hfind hbounded =>
      rw [Bool.and_eq_true] at hbounded
      have hprefix := (find_eq_some hfind).1
      have hlength := find_add_length_le hfind
      rw [List.length_drop] at hlength
      rw [List.drop_drop] at hprefix
      exact iff_of_true rfl ⟨start + offset, by omega, by omega, hprefix, hbounded⟩
  | case4 start hstart offset hfind hbounded ih =>
      rw [ih]
      constructor
      · rintro ⟨index, hindex, hrest⟩
        exact ⟨index, by omega, hrest⟩
      · rintro ⟨index, hindex, hlength, hprefix, hbefore, hafter⟩
        refine ⟨index, ?_, hlength, hprefix, hbefore, hafter⟩
        by_contra hearly
        rcases Nat.lt_or_eq_of_le (Nat.le_of_lt_succ (Nat.lt_of_not_le hearly)) with hlt | rfl
        · refine (find_eq_some hfind).2 (index - start) (by omega) ?_
          rw [List.drop_drop, Nat.add_sub_cancel' hindex]
          exact hprefix
        · exact hbounded (by rw [hbefore, hafter]; rfl)

theorem beforeOk_length (front rest : Text) :
    q.beforeOk (front ++ rest) front.length = true ↔ ∀ ch, front.getLast? = some ch →
      q.isalnum ch = false := by
  rw [beforeOk, Bool.or_eq_true, decide_eq_true_eq, List.length_eq_zero_iff]
  rcases List.eq_nil_or_concat front with rfl | ⟨body, last, rfl⟩
  · exact iff_of_true (Or.inl rfl) nofun
  · have hget : (body ++ [last] ++ rest)[(body ++ [last]).length - 1]? = some last := by
      rw [List.length_append, List.length_singleton, Nat.add_sub_cancel, List.append_assoc,
        List.getElem?_append_right le_rfl, Nat.sub_self]
      rfl
    rw [List.concat_eq_append, or_iff_right (by simp), hget, List.getLast?_concat, Option.any_some,
      Bool.not_eq_true']
    exact ⟨fun h ch hch => Option.some.inj hch ▸ h, fun h => h last rfl⟩

theorem afterOk_length (front back : Text) :
    q.afterOk (front ++ back) front.length = true ↔ ∀ ch, back.head? = some ch →
      q.isalnum ch = false := by
  rw [afterOk, Bool.or_eq_true, decide_eq_true_eq, List.length_append]
  cases back with
  | nil => exact iff_of_true (Or.inl rfl) nofun
  | cons ch back =>
      rw [List.getElem?_append_right le_rfl, Nat.sub_self, List.getElem?_cons_zero, Option.any_some,
        or_iff_right (by simp), Bool.not_eq_true', List.head?_cons]
      exact ⟨fun h other hother => Option.some.inj hother ▸ h, fun h => h ch rfl⟩

theorem boundedIn_iff : q.boundedIn quote block = true ↔ q.BoundedIn quote block := by
  rw [boundedIn, boundedFrom_iff]
  constructor
  · rintro ⟨index, -, hindex, ⟨back, hback⟩, hbefore, hafter⟩
    have hblock : block = block.take index ++ quote ++ back := by
      rw [List.append_assoc, hback, List.take_append_drop]
    have hlength : (block.take index).length = index := List.length_take_of_le hindex
    refine ⟨block.take index, back, hblock, ?_, ?_⟩
    · refine (beforeOk_length (block.take index) (quote ++ back)).mp ?_
      rw [← List.append_assoc, ← hblock, hlength]
      exact hbefore
    · refine (afterOk_length (block.take index ++ quote) back).mp ?_
      rw [← hblock, List.length_append, hlength]
      exact hafter
  · rintro ⟨front, back, rfl, hfront, hback⟩
    refine ⟨front.length, Nat.zero_le _, ?_, ?_, ?_, ?_⟩
    · rw [List.append_assoc, List.length_append]
      exact Nat.le_add_right _ _
    · rw [List.append_assoc, List.drop_left]
      exact List.prefix_append _ _
    · rw [List.append_assoc]
      exact (beforeOk_length front (quote ++ back)).mpr hfront
    · rw [← List.length_append]
      exact (afterOk_length (front ++ quote) back).mpr hback

theorem dropPairs_sublist (mark : Char) (text : Text) : (dropPairs mark text).Sublist text := by
  fun_induction dropPairs mark text with
  | case1 first second rest _ ih => exact (ih.cons second).cons first
  | case2 first second rest _ ih => exact ih.cons_cons first
  | case3 text => exact List.Sublist.refl text

theorem dropMarks_sublist (before : Option Char) (text : Text) :
    (q.dropMarks before text).Sublist text := by
  fun_induction QuickTables.dropMarks q before text with
  | case1 => exact List.Sublist.refl []
  | case2 before ch rest _ ih => exact ih.cons ch
  | case3 before ch rest _ ih => exact ih.cons_cons ch

/-- The raw reading has no character that the answer does not have, in no other order. -/
theorem rawReading_sublist (text : Text) : (q.rawReading text).Sublist (q.collapse text) := by
  rw [rawReading]
  exact (dropMarks_sublist none _).trans ((dropPairs_sublist '_' _).trans
    ((dropPairs_sublist '*' _).trans List.filter_sublist))

variable {answerText : Text} {sourceCount : ℕ} {claim : EvalJudgeQuickClaim}

/-- The checks of the loop pass exactly the claims that may be served. -/
theorem servedClaim_eq (answerText : Text) (sourceCount : ℕ) (claim : EvalJudgeQuickClaim) :
    (q.Servable answerText sourceCount claim
        ∧ q.servedClaim (q.displayedTextBlocks answerText) (q.rawReading answerText)
            sourceCount claim
          = some (q.served claim))
      ∨ (¬ q.Servable answerText sourceCount claim
        ∧ q.servedClaim (q.displayedTextBlocks answerText) (q.rawReading answerText)
            sourceCount claim = none) := by
  rw [servedClaim]
  by_cases hquote : q.displayedQuote claim = []
    ∨ judgeQuickMaxQuoteLen < (q.displayedQuote claim).length
  · refine Or.inr ⟨fun h => ?_, if_pos hquote⟩
    rcases hquote with hempty | hlong
    · exact h.nonempty hempty
    · exact absurd h.short (Nat.not_le_of_lt hlong)
  rw [if_neg hquote]
  obtain ⟨hnonempty, hshort⟩ := not_or.mp hquote
  have hany : (q.displayedTextBlocks answerText).any (q.boundedIn (q.displayedQuote claim)) = true
      ↔ ∃ block ∈ q.displayedTextBlocks answerText, q.BoundedIn (q.displayedQuote claim) block := by
    rw [List.any_eq_true]
    exact exists_congr fun block => and_congr_right fun _ => boundedIn_iff
  by_cases hshown : (q.displayedTextBlocks answerText).any
    (q.boundedIn (q.displayedQuote claim)) = true
  · rw [if_neg (not_not_intro hshown)]
    by_cases htext : (find (q.displayedQuote claim) (q.rawReading answerText)).isNone = true
        ∨ (find "<br".toList (q.lower (q.displayedQuote claim))).isSome = true
    · refine Or.inr ⟨fun h => ?_, if_pos htext⟩
      rcases htext with hnone | hbreak
      · have hsome := find_isSome_iff.mpr h.written
        rw [Option.isNone_iff_eq_none] at hnone
        rw [hnone] at hsome
        exact nomatch hsome
      · exact h.oneLine (find_isSome_iff.mp hbreak)
    · rw [if_neg htext]
      obtain ⟨hwritten, hbreak⟩ := not_or.mp htext
      have hrange : claim.source.any (fun source =>
          !decide (1 ≤ source ∧ source ≤ (sourceCount : ℤ))) = true
          ↔ ¬ ∀ source, claim.source = some source → 1 ≤ source ∧ source ≤ sourceCount := by
        cases claim.source with
        | none => exact iff_of_false nofun fun h => h nofun
        | some source =>
            rw [Option.any_some, Bool.not_eq_true', decide_eq_false_iff_not]
            exact not_congr ⟨fun h other hother => Option.some.inj hother ▸ h,
              fun h => h source rfl⟩
      by_cases hsource : claim.source.any (fun source =>
        !decide (1 ≤ source ∧ source ≤ (sourceCount : ℤ))) = true
      · exact Or.inr ⟨fun h => hrange.mp hsource h.inRange, if_pos hsource⟩
      · rw [if_neg hsource]
        have hagree : decide (claim.support = .unsourced) = claim.source.isNone
            ↔ (claim.support = .unsourced ↔ claim.source = none) := by
          rw [Bool.eq_iff_iff, decide_eq_true_eq, Option.isNone_iff_eq_none]
        by_cases hsupport : decide (claim.support = .unsourced) = claim.source.isNone
        · refine Or.inl ⟨⟨hnonempty, Nat.le_of_not_lt hshort,
            fun h => hbreak (find_isSome_iff.mpr h), ?_,
            hany.mp hshown, not_not.mp (mt hrange.mpr hsource), hagree.mp hsupport⟩,
              if_neg (not_not_intro hsupport)⟩
          rw [← find_isSome_iff]
          rwa [Option.isNone_iff_eq_none, ← Ne, Option.ne_none_iff_isSome] at hwritten
        · exact Or.inr ⟨fun h => hsupport (hagree.mpr h.sourced), if_pos hsupport⟩
  · exact Or.inr ⟨fun h => hshown (hany.mpr h.shownOnce), if_pos hshown⟩

instance : DecidablePred (q.Servable answerText sourceCount) := fun claim =>
  decidable_of_iff
    ((q.servedClaim (q.displayedTextBlocks answerText) (q.rawReading answerText)
      sourceCount claim).isSome = true) (by
      rcases q.servedClaim_eq answerText sourceCount claim with ⟨hservable, hsome⟩ | ⟨hnot, hnone⟩
      · rw [hsome]
        exact iff_of_true rfl hservable
      · rw [hnone]
        exact iff_of_false nofun hnot)

/-- The served claims are those of the first ones that may be served, in their order. -/
theorem servedClaims_kept (claims : List EvalJudgeQuickClaim) (answerText : Text)
    (sourceCount : ℕ) :
    (q.servedClaims claims answerText sourceCount).1
      = ((claims.take judgeQuickMaxClaims).filter (q.Servable answerText sourceCount)).map
          q.served := by
  rw [servedClaims, ← List.filterMap_eq_map, List.filterMap_filter]
  refine List.filterMap_congr fun claim _ => ?_
  rcases q.servedClaim_eq answerText sourceCount claim with ⟨hservable, hsome⟩ | ⟨hnot, hnone⟩
  · rw [hsome, if_pos (decide_eq_true hservable)]
    rfl
  · rw [hnone, if_neg (by rw [decide_eq_false hnot]; exact Bool.false_ne_true)]

/-- Every claim is kept or dropped. -/
theorem servedClaims_counts (claims : List EvalJudgeQuickClaim) (answerText : Text)
    (sourceCount : ℕ) :
    (q.servedClaims claims answerText sourceCount).1.length
      + (q.servedClaims claims answerText sourceCount).2
      = claims.length := by
  rw [servedClaims]
  refine Nat.add_sub_cancel' ?_
  exact (List.length_filterMap_le _ _).trans (List.length_take_le' _ _)

/-- A verdict is served as well supported only when there was a source, and no contradiction among
the first claims. -/
theorem level_wellSupported {verdict : Option JudgeVerdict} {judgeStatus : Option JudgeCallOutcome}
    {initialAnswers : List SourcedAnswer}
    (h : (q.buildQuickVerdict verdict judgeStatus initialAnswers).level = .wellSupported) :
    q.judgeEvidenceSources initialAnswers ≠ []
      ∧ ∀ judge, verdict = some judge → ∀ claim ∈ judge.claims.take judgeQuickMaxClaims,
          claim.support ≠ .contradicted := by
  cases verdict with
  | none => exact nomatch h
  | some verdict =>
      unfold buildQuickVerdict at h
      dsimp only at h
      generalize hlevel : (if verdictLevel (some verdict) = .wellSupported
        ∧ q.judgeEvidenceSources initialAnswers = []
        then QuickVerdictLevel.partlySupported else verdictLevel (some verdict)) = level at h
      split_ifs at h with hcontradicted
      · refine ⟨fun hsources => ?_, ?_⟩
        · rw [h] at hlevel
          split_ifs at hlevel with hunsourced
          exact hunsourced ⟨hlevel, hsources⟩
        · rintro judge ⟨⟩ claim hclaim hsupport
          exact hcontradicted ⟨h, List.any_eq_true.mpr ⟨claim, hclaim, decide_eq_true hsupport⟩⟩

end

/-- What a quick answer serves: the claims whose words are the answer's own, each of the first ones
that may be served and no other, and never the best level over a contradiction or without a
source. -/
theorem quickVerdict_serves (claims : List EvalJudgeQuickClaim) (answerText : Text)
    (sourceCount : ℕ) (verdict : Option JudgeVerdict) (judgeStatus : Option JudgeCallOutcome)
    (initialAnswers : List SourcedAnswer) :
    (q.servedClaims claims answerText sourceCount).1
        = ((claims.take judgeQuickMaxClaims).filter (q.Servable answerText sourceCount)).map
            q.served
      ∧ (q.servedClaims claims answerText sourceCount).1.length
          + (q.servedClaims claims answerText sourceCount).2
        = claims.length
      ∧ ((q.buildQuickVerdict verdict judgeStatus initialAnswers).sourcesChecked = []
          ∨ (∃ judge claim, verdict = some judge ∧ claim ∈ judge.claims.take judgeQuickMaxClaims
            ∧ claim.support = .contradicted) →
        (q.buildQuickVerdict verdict judgeStatus initialAnswers).level ≠ .wellSupported) := by
  refine ⟨servedClaims_kept claims answerText sourceCount,
    servedClaims_counts claims answerText sourceCount, ?_⟩
  intro hbad hlevel
  obtain ⟨hsources, hclaims⟩ := level_wellSupported hlevel
  rcases hbad with hnone | ⟨judge, claim, hjudge, hclaim, hsupport⟩
  · cases verdict with
    | none => exact nomatch hlevel
    | some verdict => exact hsources hnone
  · exact hclaims judge hjudge claim hclaim hsupport

/-- The tables on ASCII texts of one line without markup. -/
def asciiQuickTables : QuickTables :=
  { PageTables.asciiPageTables with
    isalnum := Char.isAlphanum
    parse := fun text => [.inline [.text text]] }

/-- An answer of two sentences, with one source. -/
def taxAnswer : SourcedAnswer :=
  { answerText := "The tax is 5%. It rose.".toList
    sources := [{ title := "Tax".toList, url := "https://a.test/tax".toList, excerpt := [] }] }

/-- A quote of the answer, which its source supports. -/
def taxClaim : EvalJudgeQuickClaim :=
  { quote := "The tax is  5%".toList, source := some 1, support := .supported }

/-- A quote of another text, which the source contradicts. -/
def fellClaim : EvalJudgeQuickClaim :=
  { quote := "It fell".toList, source := some 1, support := .contradicted }

/-- A verdict with the best scores, one supported claim and one contradicted one. -/
def contradictedVerdict : EvalJudgeQuickVerdict :=
  { faithfulness := 5
    grounding := 5
    hallucinationRisk := .low
    rationale := []
    modelId := []
    claims := [taxClaim, fellClaim]
    scores := by decide }

theorem taxClaim_servable : asciiQuickTables.Servable taxAnswer.answerText 1 taxClaim where
  nonempty := by decide +kernel
  short := by decide +kernel
  oneLine := by decide +kernel
  written := by decide +kernel
  shownOnce := by
    refine ⟨"The tax is 5%. It rose.".toList,
      by decide +kernel, [], ". It rose.".toList, by decide +kernel, ?_, ?_⟩
    · intro ch hch
      cases hch
    · intro ch hch
      cases hch
      decide
  inRange := by
    rintro _ ⟨⟩
    decide
  sourced := by decide

/-- The supported claim is served as the answer shows it, the other one is dropped, and its
contradiction costs the level. -/
theorem quickVerdict_serves_contradicted :
    verdictLevel (some (.quick contradictedVerdict)) = .wellSupported
      ∧ (asciiQuickTables.servedClaims contradictedVerdict.claims taxAnswer.answerText 1).1
        = [{ quote := "The tax is 5%".toList, source := some 1, support := .supported }]
      ∧ (asciiQuickTables.servedClaims contradictedVerdict.claims taxAnswer.answerText 1).2 = 1
      ∧ (asciiQuickTables.buildQuickVerdict (some (.quick contradictedVerdict))
          none [taxAnswer]).level
        ≠ .wellSupported := by
  obtain ⟨hserved, hcount, hlevel⟩ :=
    asciiQuickTables.quickVerdict_serves contradictedVerdict.claims
    taxAnswer.answerText 1 (some (.quick contradictedVerdict)) none [taxAnswer]
  have hdropped : ¬asciiQuickTables.Servable taxAnswer.answerText 1 fellClaim := fun h =>
    absurd h.written (by decide +kernel)
  have hone : (asciiQuickTables.servedClaims contradictedVerdict.claims taxAnswer.answerText 1).1
      = [{ quote := "The tax is 5%".toList, source := some 1, support := .supported }] := by
    rw [hserved,
      show contradictedVerdict.claims.take judgeQuickMaxClaims = [taxClaim, fellClaim] from rfl,
      List.filter_cons, if_pos (decide_eq_true taxClaim_servable), List.filter_cons,
      if_neg (by rw [decide_eq_false hdropped]; exact Bool.false_ne_true), List.filter_nil]
    decide +kernel
  refine ⟨by decide, hone, ?_, hlevel (.inr ⟨_, fellClaim, rfl, .tail _ List.mem_cons_self, rfl⟩)⟩
  rw [hone] at hcount
  exact Nat.add_left_cancel hcount

end QuickTables

end Quorum
