import Quorum.SafetyKept

/-! Recommendations that are sent again. The app's caveat is recognised where the app appended it,
and where it cut the text before it, so what a recommendation is made of decides whether it asks for
the warning. -/

namespace Quorum.SafetyTables

open Substitution

variable {p : SafetyTables} {text before word after : Text}

/-- No removed caveat hides a word that stands apart from it. -/
theorem requiresHighStakes_of_stands {queryText : Text}
    {context : Option (List (Text × ContextValue))}
    (h : (∃ before word after, queryText = before ++ (word ++ after) ∧ p.Stands before word after)
      ∨ ∃ values key text before word after, context = some values
          ∧ (key, ContextValue.str text) ∈ values
        ∧ text = before ++ (word ++ after) ∧ p.Stands before word after
        ∧ Apart p.caveatWidth text before.length (before.length + word.length)) :
    p.RequiresHighStakes queryText context := by
  rcases h with hquery | ⟨values, key, _, before, word, after, rfl, hmem, rfl, hstands, hapart⟩
  · cases context with
    | none => exact (requiresHighStakes_iff _ _).mpr ((highStakesSearch_iff queryText).mpr hquery)
    | some values => exact (requiresHighStakes_iff_found queryText values).mpr (.inl hquery)
  · refine (requiresHighStakes_iff_found queryText values).mpr (.inr ⟨key, _, hmem, before, word,
      after, rfl, ?_⟩)
    exact ⟨hapart, hstands.word, hstands.left, .inl hstands.right⟩

/-- Beside a query without such a word, the text that is sent again decides. -/
theorem not_requiresHighStakes_iff {queryText : Text} (key recommendation : Text)
    (hquery : ¬ ∃ before word after,
      queryText = before ++ (word ++ after) ∧ p.Stands before word after) :
    ¬ p.RequiresHighStakes queryText (some [(key, .str recommendation)])
    ↔ p.CaveatWhole recommendation := by
  rw [requiresHighStakes_iff_found, or_iff_right hquery, caveatWhole_iff, not_iff_not]
  constructor
  · rintro ⟨key', text, hmem, hfound⟩
    obtain ⟨-, hvalue⟩ := Prod.mk.inj (List.mem_singleton.mp hmem)
    rwa [← ContextValue.str.inj hvalue]
  · exact fun hfound => ⟨key, recommendation, List.mem_singleton_self _, hfound⟩

/-- A word that stands apart from the app's caveat asks for the warning, wherever it is sent. Only
the caveat is taken out of a text. A text that is sent again asks for the warning just when a caveat
of it is not whole; for a recommendation that the app cut or appended its caveat to, the text that
the app was given decides. -/
theorem highStakes_scan (p : SafetyTables) :
    (∀ queryText context,
      (∃ before word after, queryText = before ++ (word ++ after) ∧ p.Stands before word after)
        ∨ (∃ values key text before word after,
            context = some values ∧ (key, ContextValue.str text) ∈ values
          ∧ text = before ++ (word ++ after) ∧ p.Stands before word after
          ∧ Apart p.caveatWidth text before.length (before.length + word.length)) →
      p.RequiresHighStakes queryText context)
    ∧ (∀ text, ∃ segments,
        source segments = text ∧ p.stripOwnCaveat text = segments.map (Segment.render ' ')
        ∧ ∀ matched, .cut matched ∈ segments → p.IsCaveat matched)
    ∧ ∀ queryText key, (¬ ∃ before word after,
        queryText = before ++ (word ++ after) ∧ p.Stands before word after) →
        (∀ recommendation, ¬ p.RequiresHighStakes queryText (some [(key, .str recommendation)])
            ↔ p.CaveatWhole recommendation)
          ∧ (∀ text,
              ¬ p.RequiresHighStakes queryText (some [(key, .str (p.truncateRecommendation text))])
              ↔ p.ResendsFree text)
          ∧ ∀ text, ¬ p.RequiresHighStakes queryText (some [(key, .str (p.appendIfMissing text))])
              ↔ p.CaveatWhole text := by
  refine ⟨fun queryText context => requiresHighStakes_of_stands, ?_, ?_⟩
  · intro text
    obtain ⟨segments, hscanned, hsource, hsub⟩ := exists_scanned p.caveatWidth_bounded ' ' text
    refine ⟨segments, hsource, hsub, fun matched hmem => ?_⟩
    obtain ⟨left, right, rfl⟩ := List.append_of_mem hmem
    exact cut_caveat hscanned.of_append
  · intro queryText key hquery
    refine ⟨fun recommendation => not_requiresHighStakes_iff key recommendation hquery,
      fun text => ?_, fun text => ?_⟩
    · rw [not_requiresHighStakes_iff key _ hquery, caveatWhole_truncateRecommendation]
    · rw [not_requiresHighStakes_iff key _ hquery, caveatWhole_appendIfMissing]

/-- The tables on ASCII, where the letters that fold to ASCII are letters too. -/
def asciiScanTables : SafetyTables :=
  { LetterTables.asciiLetterTables.tables with
    isalnum := fun ch => ch.isAlphanum || (foldCase ch).isLower
    letters := fun ch h => by rw [h, Bool.or_true]
    spaces := fun ch h => by
      have hspace : (ch == ' ' || ch == '\n' || ch == '\t' || ch == '\r') = true := h
      simp only [Bool.or_eq_true, beq_iff_eq] at hspace
      rcases hspace with ((rfl | rfl) | rfl) | rfl <;> decide
    blanks := by decide
    stop := by decide
    dots := by decide }

/-- A recommendation that is cut before its caveat, and loses the caveat's opening with the text
before it. -/
def longText : Text :=
  "Weigh both. ".toList
    ++ (List.replicate 200 'z' ++ ' ' :: (fullCaveat ++ ' ' :: List.replicate 1700 'z'))

theorem drop_longText : longText.drop 229 = fullCaveat.drop 16
    ++ ' ' :: List.replicate 1700 'z' := by
  decide +kernel

theorem resendsFree_longText : asciiScanTables.ResendsFree longText := by
  have hindex : asciiScanTables.caveatIndex longText = some 229 := by decide +kernel
  have hlong : ¬ longText.length ≤ recommendationMaxChars := by decide +kernel
  have hkept : keptBefore longText 229 = "Weigh both. ".toList := by decide +kernel
  rw [resendsFree_present hindex, if_neg hlong, hkept, drop_longText]
  constructor
  · exact caveatWhole_of_letters (exists_letter_of_all (by decide +kernel))
  · refine .inl ⟨_, _, rfl, isCaveat_fullCaveat.2, caveatWhole_of_letters fun word hword => ?_⟩
    have hletter : ∀ word ∈ highStakesWords, ∃ ch ∈ word, ∀ other ∈ [' ', 'z'],
        foldCase other ≠ ch := exists_letter_of_all (by decide +kernel)
    obtain ⟨ch, hch, hother⟩ := hletter word hword
    refine ⟨ch, hch, fun other hmem => hother other ?_⟩
    rcases List.mem_cons.mp hmem with rfl | hmem
    · exact List.mem_cons_self
    · rw [List.eq_of_mem_replicate hmem]
      exact List.mem_cons_of_mem _ List.mem_cons_self

/-- A query on law asks for the warning. A recommendation that was cut, with the words of the caveat
alone, does not when it is sent again. -/
theorem highStakes_scan_ascii :
    asciiScanTables.RequiresHighStakes "Is it legal?".toList none
      ∧ ¬ asciiScanTables.RequiresHighStakes []
          (some [("prior_synthesis".toList,
            .str (asciiScanTables.truncateRecommendation longText))]) := by
  refine ⟨?_, ?_⟩
  · refine (highStakes_scan asciiScanTables).1 _ none
      (.inl ⟨"Is it ".toList, "legal".toList, "?".toList, rfl, by decide, ?_, ?_⟩)
    · rintro ch ⟨⟩
      exact isWord_blank
    · rintro ch ⟨⟩
      decide
  · have hquery : ¬ ∃ before word after, ([] : Text) = before ++ (word ++ after)
        ∧ asciiScanTables.Stands before word after := by
      rw [← highStakesSearch_iff, highStakesSearch_nil]
      exact Bool.false_ne_true
    have hresent :=
      ((highStakes_scan asciiScanTables).2.2 [] "prior_synthesis".toList hquery).2.1 longText
    exact hresent.mpr resendsFree_longText

/-- A caveat behind `'İ'`, and more text than fits behind it. -/
def dottedText : Text := 'İ' :: (fullCaveat ++ ' ' :: List.replicate 2000 'z')

/-- What the cut leaves of the caveat. -/
def clippedCaveat : Text := fullCaveat.drop 17

theorem truncateRecommendation_dottedText :
    asciiScanTables.truncateRecommendation dottedText = clippedCaveat
      ++ ' ' :: List.replicate 2000 'z' := by
  have hindex : asciiScanTables.caveatIndex dottedText = some 18 := by decide +kernel
  have hlength : dottedText.length = 2119 := by
    rw [dottedText, List.length_cons, List.length_append, TextTables.fullCaveat_length,
      List.length_cons, List.length_replicate]
  have honward : dottedText.drop 18 = clippedCaveat ++ ' ' :: List.replicate 2000 'z' := by
    rw [dottedText, List.drop_succ_cons,
      List.drop_append_of_le_length (by rw [TextTables.fullCaveat_length]; omega)]
    rfl
  rw [TextTables.truncateRecommendation, if_neg (show dottedText ≠ [] from List.cons_ne_nil _ _),
    hindex]
  dsimp only
  rw [TextTables.truncateWithCaveatPresent, if_neg (by rw [hlength]; decide),
    if_pos (by rw [List.length_drop, hlength]; decide), honward, TextTables.rstrip]
  have hlast : clippedCaveat ++ ' ' :: List.replicate 2000 'z'
      = (clippedCaveat ++ ' ' :: List.replicate 1999 'z') ++ ['z'] := by
    rw [List.append_assoc, List.cons_append, ← List.replicate_succ']
  rw [hlast]
  exact List.rdropWhile_concat_neg _ _ _ (by decide)

theorem mem_of_append_eq {left tail front after : Text} {ch : Char}
    (h : left ++ tail = front ++ ch :: after) (hle : left.length ≤ front.length) : ch ∈ tail := by
  obtain ⟨gap, rfl⟩ : left <+: front :=
    List.prefix_of_prefix_length_le ⟨tail, rfl⟩ (by rw [h]; exact List.prefix_append _ _) hle
  rw [List.append_assoc] at h
  rw [List.append_cancel_left h]
  exact List.mem_append_right _ List.mem_cons_self

/-- The index of the lower-cased text takes the first letter off the caveat. The words of the caveat
are then the only high-stakes words of the recommendation, and still they ask for the warning when
it is sent again. -/
theorem requiresHighStakes_clippedCaveat :
    asciiScanTables.truncateRecommendation dottedText = clippedCaveat
      ++ ' ' :: List.replicate 2000 'z'
      ∧ (∀ before word after,
          clippedCaveat ++ ' ' :: List.replicate 2000 'z' = before ++ (word ++ after) →
          asciiScanTables.Stands before word after →
            before.length + word.length ≤ clippedCaveat.length)
      ∧ asciiScanTables.RequiresHighStakes []
          (some [("prior_synthesis".toList,
            .str (asciiScanTables.truncateRecommendation dottedText))]) := by
  refine ⟨truncateRecommendation_dottedText, ?_, ?_⟩
  · intro before word after hsplit hstands
    by_contra hbeyond
    obtain ⟨front, last, rfl⟩ :=
      (List.eq_nil_or_concat word).resolve_left
        (letters_of_mem highStakesWords_letters hstands.word).1
    rw [List.concat_eq_append] at hsplit hstands hbeyond
    have hsplit' : clippedCaveat ++ ' ' :: List.replicate 2000 'z' = (before ++ front)
        ++ last :: after := by
      rw [hsplit, List.append_assoc, List.append_assoc, List.singleton_append]
    have hmem : last ∈ ' ' :: List.replicate 2000 'z' := by
      refine mem_of_append_eq hsplit' ?_
      rw [List.length_append, List.length_singleton] at hbeyond
      rw [List.length_append]
      omega
    have hword := hstands.word
    rw [List.map_append, List.map_singleton] at hword
    have hends : ∀ word ∈ highStakesWords, word.getLast? ≠ some ' '
        ∧ word.getLast? ≠ some 'z' := by decide
    obtain ⟨hblank, hfill⟩ := hends _ hword
    rw [List.getLast?_concat] at hblank hfill
    rcases List.mem_cons.mp hmem with rfl | hmem
    · exact hblank (by decide)
    · obtain rfl := List.eq_of_mem_replicate hmem
      exact hfill (by decide)
  · rw [truncateRecommendation_dottedText]
    have hsplit : clippedCaveat ++ ' ' :: List.replicate 2000 'z'
        = clippedCaveat.take 32
            ++ ("medical".toList ++ (clippedCaveat.drop 39 ++ ' ' :: List.replicate 2000 'z')) := by
      have hcaveat : clippedCaveat = clippedCaveat.take 32
          ++ ("medical".toList ++ clippedCaveat.drop 39) := by
        decide +kernel
      conv_lhs => rw [hcaveat]
      rw [List.append_assoc, List.append_assoc]
    refine requiresHighStakes_of_stands (.inr ⟨_, _, _, _, _, _, rfl,
      List.mem_singleton_self _, hsplit,
      ⟨by decide, ?_, ?_⟩, ?_⟩)
    · rw [show (clippedCaveat.take 32).getLast? = some ' ' by decide +kernel]
      rintro ch ⟨⟩
      exact isWord_blank
    · rw [List.head?_append, show (clippedCaveat.drop 39).head? = some ',' by decide +kernel]
      rintro ch ⟨⟩
      decide
    intro place width hwidth
    exfalso
    rcases Nat.lt_or_ge place clippedCaveat.length with hinside | houtside
    · have hnone : (List.range 100).all fun place =>
          (asciiScanTables.caveatWidth
            ((clippedCaveat ++ ' ' :: List.replicate 2000 'z').drop place)).isNone := by
        decide +kernel
      have hhere :=
        List.all_eq_true.mp hnone place (List.mem_range.mpr (hinside.trans_le (by decide +kernel)))
      rw [hwidth] at hhere
      exact nomatch hhere
    · obtain ⟨body, rest, hbody, -, -⟩ := caveatWidth_ends hwidth
      rw [List.drop_append, List.drop_eq_nil_of_le houtside, List.nil_append] at hbody
      have hmem : '.' ∈ ' ' :: List.replicate 2000 'z' := by
        refine List.mem_of_mem_drop (i := place - clippedCaveat.length) ?_
        rw [hbody]
        exact List.mem_append_right _ List.mem_cons_self
      rcases List.mem_cons.mp hmem with hblank | hmem
      · exact absurd hblank (by decide)
      · exact absurd (List.eq_of_mem_replicate hmem) (by decide)

end Quorum.SafetyTables
