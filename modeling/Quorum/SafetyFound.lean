import Quorum.SafetyScan
import Quorum.SynthesisCaveat

/-! What the high-stakes scan finds in a query and its context. The caveat's own words go, and each
other word is still found; a word that ran into the caveat is found too, as it ends where the caveat
was. -/

namespace Quorum.SafetyTables

open Substitution

variable {p : SafetyTables} {text before word after : Text}

/-! ### The caveat ends at its first stop -/

theorem ne_stop_of_separator {ch : Char} (h : p.isSeparator ch = true) : ch ≠ '.' := by
  rintro rfl
  rw [isSeparator_stop] at h
  exact Bool.noConfusion h

theorem ne_stop_of_letter {ch : Char} (h : (foldCase ch).isLower = true) : ch ≠ '.' := by
  rintro rfl
  exact absurd h (by decide)

theorem Spells.no_stop {tokens : List Text} (htokens : Tokens tokens) :
    ∀ {text : Text}, p.Spells tokens text → '.' ∉ text := by
  intro text hspells
  have hword : ∀ {token word : Text}, token ∈ tokens → word.map foldCase = token → '.' ∉ word := by
    intro token word htoken hfold hmem
    refine ne_stop_of_letter ((htokens token htoken).2 (foldCase '.') ?_) rfl
    rw [← hfold]
    exact List.mem_map_of_mem hmem
  match tokens, hspells with
  | [], hspells =>
      rw [show text = [] from hspells]
      exact List.not_mem_nil
  | [token], hspells => exact hword (List.mem_singleton_self _) hspells
  | token :: next :: tokens, hspells =>
      obtain ⟨first, gap, rest, rfl, hfold, -, hsep, hrest⟩ := hspells
      have htail : Tokens (next :: tokens) :=
        fun other hother => htokens other (List.mem_cons_of_mem _ hother)
      rw [List.mem_append, List.mem_append, not_or, not_or]
      exact ⟨hword List.mem_cons_self hfold, fun hmem => ne_stop_of_separator (hsep _ hmem) rfl,
        Spells.no_stop htail hrest⟩

theorem IsCaveat.ends {taken : Text} (h : p.IsCaveat taken) : ∃ body, taken = body ++ ['.']
    ∧ '.' ∉ body := by
  obtain ⟨body, gap, rfl, hspells, hgap⟩ := h
  have hbody : '.' ∉ body :=
    hspells.elim (Spells.no_stop caveatTokens_tokens.1) (Spells.no_stop caveatTokens_tokens.2)
  refine ⟨body ++ gap, (List.append_assoc _ _ _).symm, ?_⟩
  rw [List.mem_append, not_or]
  exact ⟨hbody, fun hmem => ne_stop_of_separator (hgap _ hmem) rfl⟩

theorem caveatWidth_ends {width : ℕ} (h : p.caveatWidth text = some width) :
    ∃ body rest, text = body ++ '.' :: rest ∧ '.' ∉ body ∧ width = body.length + 1 := by
  obtain ⟨taken, rest, rfl, rfl, hcaveat⟩ := (caveatWidth_iff _ _).mp h
  obtain ⟨body, rfl, hbody⟩ := hcaveat.ends
  exact ⟨body, rest,
    by rw [List.append_assoc, List.singleton_append], hbody, by rw [List.length_append]; rfl⟩

/-- Two caveats that meet end at one stop. -/
theorem caveatWidth_nested (p : SafetyTables) : Nested p.caveatWidth := by
  intro text width inner width' hwidth hinner hinside
  obtain ⟨body, rest, rfl, hbody, rfl⟩ := caveatWidth_ends hwidth
  obtain ⟨body', rest', hsame, hbody', rfl⟩ := caveatWidth_ends hinside
  rw [List.drop_append_of_le_length (Nat.le_of_lt_succ hinner)] at hsame
  have hlength : body'.length ≤ (body.drop inner).length := by
    by_contra hlonger
    have hwhole : body.drop inner ++ ['.'] <+: body.drop inner ++ '.' :: rest :=
      ⟨rest, by rw [List.append_assoc, List.singleton_append]⟩
    have hwithin : body.drop inner ++ ['.'] <+: body' := by
      refine List.prefix_of_prefix_length_le hwhole ⟨'.' :: rest', hsame.symm⟩ ?_
      · rw [List.length_append, List.length_singleton]
        omega
    exact hbody' (hwithin.subset (List.mem_append_right _ (List.mem_singleton_self _)))
  rw [List.length_drop] at hlength
  omega

/-! ### The words of a stripped text -/

/-- A high-stakes word of the text, apart from the app's caveat, that ends at a word boundary or
where a caveat begins. -/
structure Found (p : SafetyTables) (before word after : Text) : Prop where
  apart : Apart p.caveatWidth (before ++ (word ++ after)) before.length
    (before.length + word.length)
  word : word.map foldCase ∈ highStakesWords
  left : ∀ ch ∈ before.getLast?, p.isWord ch = false
  right : (∀ ch ∈ after.head?, p.isWord ch = false) ∨ (p.caveatWidth after).isSome = true

theorem isWord_blank : p.isWord ' ' = false := isWord_space p.blanks.1

/-- What a scan cuts is the caveat, and ends with its stop. -/
theorem cut_caveat {matched : Text} {right : List (Segment Char)}
    (hscanned : Scanned p.caveatWidth (.cut matched :: right)) : p.IsCaveat matched := by
  cases hscanned with
  | cut hsome _ =>
      obtain ⟨taken, rest, hsplit, hlength, hcaveat⟩ := (caveatWidth_iff _ _).mp hsome
      rwa [(List.append_inj hsplit hlength.symm).1]

theorem cut_ends {matched : Text} {right : List (Segment Char)}
    (hscanned : Scanned p.caveatWidth (.cut matched :: right)) : ∃ body, matched = body ++ ['.'] :=
  (cut_caveat hscanned).ends.imp fun _ => And.left

/-- The symbol before a place is a word's in the text just when it is in what the scan made of
it. -/
theorem isWord_getLast {segments : List (Segment Char)}
    (hscanned : ∃ right, Scanned p.caveatWidth (segments ++ right)) :
    (∀ ch ∈ (segments.map (Segment.render ' ')).getLast?, p.isWord ch = false)
      ↔ ∀ ch ∈ (source segments).getLast?, p.isWord ch = false := by
  rcases List.eq_nil_or_concat segments with rfl | ⟨front, last, rfl⟩
  · exact Iff.rfl
  · rw [List.concat_eq_append] at hscanned ⊢
    rw [List.map_append, source_append, List.map_singleton, List.getLast?_concat]
    cases last with
    | kept symbol => rw [source_kept, source_nil, List.getLast?_concat]; rfl
    | cut matched =>
        obtain ⟨right, hscanned⟩ := hscanned
        rw [List.append_assoc] at hscanned
        obtain ⟨body, rfl⟩ := cut_ends hscanned.of_append
        rw [source_cut, source_nil, List.append_nil, ← List.append_assoc, List.getLast?_concat]
        refine iff_of_true ?_ ?_
        · rintro ch ⟨⟩
          exact isWord_blank
        · rintro ch ⟨⟩
          exact isWord_stop

/-- A place is at a word's end in what the scan made of a text where it is in the text, or where a
caveat begins. -/
theorem isWord_head {segments : List (Segment Char)} (hscanned : Scanned p.caveatWidth segments) :
    (∀ ch ∈ (segments.map (Segment.render ' ')).head?, p.isWord ch = false)
      ↔ (∀ ch ∈ (source segments).head?, p.isWord ch = false)
          ∨ (p.caveatWidth (source segments)).isSome = true := by
  cases hscanned with
  | nil => exact iff_of_true nofun (.inl nofun)
  | kept hnone hrest =>
      rw [source_kept, hnone]
      exact (or_iff_left nofun).symm
  | cut hsome hrest =>
      rw [source_cut, hsome]
      refine iff_of_true ?_ (.inr rfl)
      rintro ch ⟨⟩
      exact isWord_blank

/-- Only letters of the text can spell a word: none of them stands for a caveat. -/
theorem kept_of_render {segments : List (Segment Char)}
    (hrender : segments.map (Segment.render ' ') = word)
    (hword : word.map foldCase ∈ highStakesWords) : segments = word.map .kept := by
  have hletters := (letters_of_mem highStakesWords_letters hword).2
  subst hrender
  clear hword
  induction segments with
  | nil => rfl
  | cons segment segments ih =>
      have hrest := ih fun ch hch => hletters ch (List.mem_cons_of_mem _ hch)
      cases segment with
      | kept symbol => rw [List.map_cons, List.map_cons, ← hrest]; rfl
      | cut matched => exact absurd (hletters ' ' List.mem_cons_self) (by decide)

/-- The scan of a stripped text finds just the words that stand apart from the caveat, and those
that run into it. -/
theorem stripOwnCaveat_search (p : SafetyTables) (text : Text) :
    p.highStakesSearch (p.stripOwnCaveat text) = true
      ↔ ∃ before word after, text = before ++ (word ++ after) ∧ p.Found before word after := by
  obtain ⟨segments, hscanned, rfl, hsub⟩ := exists_scanned p.caveatWidth_bounded ' ' text
  rw [highStakesSearch_iff, stripOwnCaveat, hsub]
  constructor
  · rintro ⟨before, word, after, hsplit, hstands⟩
    obtain ⟨left, rest, rfl, hleft, hrest⟩ := List.map_eq_append_iff.mp hsplit
    obtain ⟨middle, right, rfl, hmiddle, hright⟩ := List.map_eq_append_iff.mp hrest
    obtain rfl := kept_of_render hmiddle hstands.word
    have hscanned' : Scanned p.caveatWidth right := hscanned.of_append.of_append
    have hsource : source (left ++ (word.map .kept ++ right)) = source left
        ++ (word ++ source right) := by
      rw [source_append, source_append, source_map_kept]
    refine ⟨source left, word, source right, hsource, ?_, hstands.word, ?_, ?_⟩
    · rw [← hsource]
      exact hscanned.apart_kept p.caveatWidth_nested
    · exact (isWord_getLast ⟨_, hscanned⟩).mp (by rw [hleft]; exact hstands.left)
    · exact (isWord_head hscanned').mp (by rw [hright]; exact hstands.right)
  · rintro ⟨before, word, after, hsplit, hfound⟩
    obtain ⟨left, right, rfl, rfl, rfl, hright⟩ :=
      hscanned.split p.caveatWidth_bounded hsplit hfound.apart
    refine ⟨left.map (Segment.render ' '), word, right.map (Segment.render ' '), ?_,
      hfound.word, ?_, ?_⟩
    · rw [List.map_append, List.map_append, render_map_kept]
    · exact (isWord_getLast ⟨_, hscanned⟩).mpr hfound.left
    · exact (isWord_head hright).mpr hfound.right

/-! ### The joined parts -/

theorem isWord_newline : p.isWord '\n' = false := isWord_space p.blanks.2

/-- No word goes across a symbol that is none of a word's. -/
theorem highStakesSearch_join {gap : Char} (hgap : p.isWord gap = false) (left right : Text) :
    p.highStakesSearch (left ++ gap :: right) = true
      ↔ p.highStakesSearch left = true ∨ p.highStakesSearch right = true := by
  rw [highStakesSearch_iff, highStakesSearch_iff, highStakesSearch_iff]
  constructor
  · rintro ⟨before, word, after, hsplit, hstands⟩
    have hbreak : gap ∉ word := fun hmem => by
      rw [isWord_of_letter
        ((letters_of_mem highStakesWords_letters hstands.word).2 gap hmem)] at hgap
      exact Bool.noConfusion hgap
    rcases List.append_eq_append_iff.mp hsplit with ⟨between, hbefore, hrest⟩ |
      ⟨between, hleft, hrest⟩
    · -- the word begins at or behind the break
      cases between with
      | nil =>
          obtain ⟨ch, more, rfl⟩ :=
            List.exists_cons_of_ne_nil (letters_of_mem highStakesWords_letters hstands.word).1
          obtain ⟨rfl, -⟩ := List.cons.inj hrest
          exact absurd List.mem_cons_self hbreak
      | cons ch between =>
          obtain ⟨rfl, hright⟩ := List.cons.inj hrest
          refine .inr ⟨between, word, after, hright, hstands.word,
            fun last hlast => hstands.left last ?_, hstands.right⟩
          rw [hbefore, List.getLast?_append, List.getLast?_cons]
          rw [Option.mem_def] at hlast ⊢
          rw [hlast]
          rfl
    · -- the word begins before the break, and ends there or before
      rcases List.append_eq_append_iff.mp hrest with ⟨between', hbetween, hbreaks⟩ |
        ⟨between', hword, hbreaks⟩
      · refine .inl ⟨before, word, between', by rw [hleft, hbetween], hstands.word, hstands.left,
          fun first hfirst => hstands.right first ?_⟩
        rw [hbreaks, List.head?_append, Option.mem_def.mp hfirst]
        rfl
      · cases between' with
        | nil =>
            refine .inl ⟨before, word, [], ?_, hstands.word, hstands.left, nofun⟩
            rw [List.append_nil] at hword ⊢
            rw [hleft, hword]
        | cons ch between' =>
            obtain ⟨rfl, -⟩ := List.cons.inj hbreaks
            refine absurd ?_ hbreak
            rw [hword]
            exact List.mem_append_right _ List.mem_cons_self
  · rintro (⟨before, word, after, rfl, hstands⟩ | ⟨before, word, after, rfl, hstands⟩)
    · refine ⟨before, word, after ++ gap :: right,
        by rw [List.append_assoc, List.append_assoc], hstands.word,
        hstands.left, ?_⟩
      cases after with
      | nil =>
          rintro ch ⟨⟩
          exact hgap
      | cons first after => exact hstands.right
    · refine ⟨left ++ gap :: before, word, after,
        by rw [List.append_assoc]; rfl, hstands.word, ?_, hstands.right⟩
      rw [List.getLast?_append, List.getLast?_cons]
      cases hlast : before.getLast? with
      | none =>
          rintro ch ⟨⟩
          exact hgap
      | some last =>
          rintro ch ⟨⟩
          exact hstands.left last hlast

theorem highStakesSearch_intercalate (part : Text) (parts : List Text) :
    p.highStakesSearch (['\n'].intercalate (part :: parts)) = true
      ↔ ∃ one ∈ part :: parts, p.highStakesSearch one = true := by
  induction parts generalizing part with
  | nil => simp
  | cons next parts ih =>
      rw [List.intercalate_cons_cons, List.append_assoc, List.singleton_append,
        highStakesSearch_join isWord_newline, ih next]
      exact (List.exists_mem_cons_iff (fun one => p.highStakesSearch one = true) part
        (next :: parts)).symm

theorem highStakesSearch_nil : p.highStakesSearch [] = false := by
  rw [Bool.eq_false_iff]
  intro h
  obtain ⟨before, word, after, hnil, hstands⟩ := (highStakesSearch_iff []).mp h
  obtain ⟨-, hrest⟩ := List.append_eq_nil_iff.mp hnil.symm
  exact (letters_of_mem highStakesWords_letters hstands.word).1 (List.append_eq_nil_iff.mp hrest).1

/-- The warning is required for a word of the query, or one that is found in a text of the
context. -/
theorem requiresHighStakes_iff_found (queryText : Text) (values : List (Text × ContextValue)) :
    p.RequiresHighStakes queryText (some values) ↔
      (∃ before word after, queryText = before ++ (word ++ after) ∧ p.Stands before word after)
        ∨ ∃ key text, (key, ContextValue.str text) ∈ values
          ∧ ∃ before word after, text = before ++ (word ++ after) ∧ p.Found before word after := by
  rw [requiresHighStakes_iff, ← highStakesSearch_iff]
  cases values with
  | nil =>
      exact (or_iff_left (by rintro ⟨key, text, hmem, -⟩; exact absurd hmem List.not_mem_nil)).symm
  | cons value values =>
      unfold scannableText
      rw [highStakesSearch_intercalate, List.exists_mem_cons_iff]
      refine or_congr_right ⟨?_, ?_⟩
      · rintro ⟨part, hpart, hsearch⟩
        obtain ⟨⟨key, one⟩, hmem, hone⟩ := List.mem_filterMap.mp hpart
        cases one with
        | str text =>
            dsimp only at hone
            split_ifs at hone
            obtain rfl := Option.some.inj hone
            exact ⟨key, text, hmem, (p.stripOwnCaveat_search text).mp hsearch⟩
        | other => cases hone
      · rintro ⟨key, text, hmem, hfound⟩
        have hsearch := (p.stripOwnCaveat_search text).mpr hfound
        refine ⟨p.stripOwnCaveat text,
          List.mem_filterMap.mpr ⟨(key, .str text), hmem, if_neg ?_⟩, hsearch⟩
        rintro rfl
        rw [show p.stripOwnCaveat [] = [] from rfl, highStakesSearch_nil] at hsearch
        exact Bool.noConfusion hsearch

/-- The high-stakes words of a text are in whole caveats, and none runs into one. -/
structure CaveatWhole (p : SafetyTables) (text : Text) : Prop where
  covered : ∀ before word after, text = before ++ (word ++ after) → p.Stands before word after →
    ¬ Apart p.caveatWidth text before.length (before.length + word.length)
  unglued : ∀ before word after, text = before ++ (word ++ after) →
    word.map foldCase ∈ highStakesWords →
    (∀ ch ∈ before.getLast?, p.isWord ch = false) →
    Apart p.caveatWidth text before.length (before.length + word.length) →
    p.caveatWidth after = none

theorem caveatWhole_iff (text : Text) :
    p.CaveatWhole text ↔ ¬ ∃ before word after, text = before ++ (word ++ after)
      ∧ p.Found before word after := by
  constructor
  · rintro hwhole ⟨before, word, after, rfl, hfound⟩
    rcases hfound.right with hright | hright
    · exact hwhole.covered before word after rfl ⟨hfound.word, hfound.left, hright⟩ hfound.apart
    · rw [hwhole.unglued before word after rfl hfound.word hfound.left hfound.apart] at hright
      exact nomatch hright
  · intro hnone
    constructor
    · rintro before word after rfl hstands hapart
      exact hnone ⟨before, word, after, rfl, hapart, hstands.word, hstands.left, .inl hstands.right⟩
    · rintro before word after rfl hword hleft hapart
      rw [← Option.not_isSome_iff_eq_none]
      exact fun hsome => hnone ⟨before, word, after, rfl, hapart, hword, hleft, .inr hsome⟩

theorem caveatWhole_iff_search (text : Text) :
    p.CaveatWhole text ↔ ¬ p.highStakesSearch (p.stripOwnCaveat text) = true := by
  rw [caveatWhole_iff, stripOwnCaveat_search]

end Quorum.SafetyTables
