import Quorum.SafetyFound

/-! What the app writes around a recommendation, and the scan: the appended caveat, the ellipsis of
a cut, and blanks that are stripped. None of them adds or hides a high-stakes word, as no caveat
goes across them. -/

namespace Quorum.SafetyTables

open Substitution

variable {p : SafetyTables} {text front back taken : Text}

/-! ### The letters of a caveat -/

/-- A letter that folds to one of ASCII. -/
def isLetter (ch : Char) : Bool := (foldCase ch).isLower

theorem isLetter_of_mem {tokens : List Text} (htokens : Tokens tokens) {token word : Text}
    (htoken : token ∈ tokens) (hfold : word.map foldCase = token) :
    ∀ ch ∈ word, isLetter ch = true := by
  intro ch hch
  refine (htokens token htoken).2 (foldCase ch) ?_
  rw [← hfold]
  exact List.mem_map_of_mem hch

theorem countP_separators {gap : Text} (hgap : ∀ ch ∈ gap, p.isSeparator ch = true) :
    gap.countP isLetter = 0 :=
  List.countP_eq_zero.mpr fun ch hch => Bool.eq_false_iff.mp (foldCase_separator (hgap ch hch))

/-- Each symbol of a spelled text is a letter of a token or a separator. -/
theorem Spells.symbols {tokens : List Text} (htokens : Tokens tokens) :
    ∀ {text : Text}, p.Spells tokens text → ∀ ch ∈ text, isLetter ch = true
      ∨ p.isSeparator ch = true := by
  intro text hspells ch hch
  match tokens, hspells with
  | [], hspells =>
      rw [show text = [] from hspells] at hch
      exact absurd hch List.not_mem_nil
  | [token], hspells =>
      exact .inl (isLetter_of_mem htokens (List.mem_singleton_self _) hspells ch hch)
  | token :: next :: tokens, hspells =>
      obtain ⟨first, gap, rest, rfl, hfold, -, hsep, hrest⟩ := hspells
      have htail : Tokens (next :: tokens) :=
        fun other hother => htokens other (List.mem_cons_of_mem _ hother)
      rcases List.mem_append.mp hch with hfirst | hmore
      · exact .inl (isLetter_of_mem htokens List.mem_cons_self hfold ch hfirst)
      · rcases List.mem_append.mp hmore with hmid | hlast
        · exact .inr (hsep ch hmid)
        · exact Spells.symbols htail hrest ch hlast

/-- The letters of a spelled text are those of its tokens. -/
theorem Spells.letters {tokens : List Text} (htokens : Tokens tokens) :
    ∀ {text : Text}, p.Spells tokens text → text.countP isLetter = tokens.flatten.length := by
  intro text hspells
  have hword : ∀ {token word : Text}, token ∈ tokens → word.map foldCase = token →
      word.countP isLetter = token.length := by
    intro token word htoken hfold
    rw [List.countP_eq_length.mpr (isLetter_of_mem htokens htoken hfold), ← hfold, List.length_map]
  match tokens, hspells with
  | [], hspells =>
      rw [show text = [] from hspells]
      rfl
  | [token], hspells =>
      rw [List.flatten_singleton]
      exact hword (List.mem_singleton_self _) hspells
  | token :: next :: tokens, hspells =>
      obtain ⟨first, gap, rest, rfl, hfold, -, hsep, hrest⟩ := hspells
      have htail : Tokens (next :: tokens) :=
        fun other hother => htokens other (List.mem_cons_of_mem _ hother)
      rw [List.countP_append, List.countP_append, countP_separators hsep, Nat.zero_add,
        hword List.mem_cons_self hfold, Spells.letters htail hrest, ← List.length_append,
        ← List.flatten_cons]

def caveatLetters : ℕ := (caveatOpening ++ caveatTokens).flatten.length

theorem IsCaveat.symbols (h : p.IsCaveat taken) :
    ∀ ch ∈ taken, isLetter ch = true ∨ p.isSeparator ch = true ∨ ch = '.' := by
  obtain ⟨body, gap, rfl, hspells, hgap⟩ := h
  intro ch hch
  rcases List.mem_append.mp hch with hbody | hmore
  · have hsymbol := hspells.elim (fun h => h.symbols caveatTokens_tokens.1 ch hbody)
      fun h => h.symbols caveatTokens_tokens.2 ch hbody
    exact hsymbol.imp_right .inl
  · rcases List.mem_append.mp hmore with hmid | hlast
    · exact .inr (.inl (hgap ch hmid))
    · exact .inr (.inr (List.mem_singleton.mp hlast))

/-- A caveat begins with a letter, and has no more of them than the whole one. -/
theorem IsCaveat.letters (h : p.IsCaveat taken) :
    (∃ first rest, taken = first :: rest ∧ isLetter first = true)
      ∧ taken.countP isLetter ≤ caveatLetters := by
  have hcaveat := h
  obtain ⟨body, gap, rfl, hspells, hgap⟩ := h
  obtain ⟨first, rest, rfl, hfirst⟩ :=
    hspells.elim (fun h => h.head caveatTokens_tokens.1 (by decide))
    fun h => h.head caveatTokens_tokens.2 (by decide)
  refine ⟨⟨first, rest ++ (gap ++ ['.']), rfl, ?_⟩, ?_⟩
  · rcases hcaveat.symbols first List.mem_cons_self with hletter | hsep | rfl
    · exact hletter
    · rw [hfirst] at hsep
      exact Bool.noConfusion hsep
    · have hbody :=
        hspells.elim (Spells.no_stop caveatTokens_tokens.1) (Spells.no_stop caveatTokens_tokens.2)
      exact absurd List.mem_cons_self hbody
  · rw [List.countP_append, List.countP_append, countP_separators hgap, Nat.zero_add]
    rcases hspells with hspells | hspells
    · rw [hspells.letters caveatTokens_tokens.1]
      exact le_of_eq rfl
    · rw [hspells.letters caveatTokens_tokens.2]
      decide

/-! ### Where no caveat goes across -/

/-- A caveat that begins in the front and goes on behind it is a front's end and something more. -/
def Crosses (p : SafetyTables) (front back : Text) : Prop :=
  ∃ begun more, begun <:+ front ∧ begun ≠ [] ∧ more <+: back ∧ more ≠ []
    ∧ p.IsCaveat (begun ++ more)

theorem caveatWidth_append (hnot : ¬ p.Crosses text back) (hne : text ≠ []) :
    p.caveatWidth (text ++ back) = p.caveatWidth text := by
  refine Option.ext fun width => ?_
  rw [caveatWidth_iff, caveatWidth_iff]
  constructor
  · rintro ⟨taken, rest, hsplit, hlength, hcaveat⟩
    rcases List.append_eq_append_iff.mp hsplit with ⟨more, rfl, hback⟩ | ⟨more, htext, -⟩
    · by_cases hmore : more = []
      · exact ⟨text, [], (List.append_nil _).symm, by rw [← hlength, hmore, List.append_nil],
          by rwa [hmore, List.append_nil] at hcaveat⟩
      · exact absurd ⟨text, more, List.suffix_rfl, hne, ⟨rest, hback.symm⟩, hmore, hcaveat⟩ hnot
    · exact ⟨taken, more, htext, hlength, hcaveat⟩
  · rintro ⟨taken, rest, rfl, hlength, hcaveat⟩
    exact ⟨taken, rest ++ back, List.append_assoc _ _ _, hlength, hcaveat⟩

theorem Crosses.of_suffix (h : p.Crosses text back) (hsuffix : text <:+ front) :
    p.Crosses front back := by
  obtain ⟨begun, more, hbegun, hrest⟩ := h
  exact ⟨begun, more, hbegun.trans hsuffix, hrest⟩

/-- The caveat is taken out of two parts each for itself where none goes across. -/
theorem stripOwnCaveat_append (hnot : ¬ p.Crosses front back) :
    p.stripOwnCaveat (front ++ back) = p.stripOwnCaveat front ++ p.stripOwnCaveat back := by
  refine substitute_append p.caveatWidth_bounded fun place hplace => ?_
  refine caveatWidth_append (fun hcrosses => hnot (hcrosses.of_suffix (List.drop_suffix _ _))) ?_
  exact List.ne_nil_of_length_pos (by rw [List.length_drop]; omega)

/-- A symbol that is none of a caveat's ends every caveat before it. -/
theorem not_crosses_of_symbol {ch : Char} (hletter : isLetter ch = false)
    (hsep : p.isSeparator ch = false) (hstop : ch ≠ '.') : ¬ p.Crosses front (ch :: back) := by
  rintro ⟨begun, more, -, -, hmore, hne, hcaveat⟩
  obtain ⟨first, rest, rfl⟩ := List.exists_cons_of_ne_nil hne
  obtain ⟨rfl, -⟩ := List.cons_prefix_cons.mp hmore
  rcases hcaveat.symbols first (List.mem_append_right _ List.mem_cons_self) with h | h | h
  · rw [hletter] at h
    exact Bool.noConfusion h
  · rw [hsep] at h
    exact Bool.noConfusion h
  · exact hstop h

/-- No caveat ends where there is no stop. -/
theorem not_crosses_of_no_stop (hstop : '.' ∉ back) : ¬ p.Crosses front back := by
  rintro ⟨begun, more, -, -, hmore, hne, hcaveat⟩
  obtain ⟨body, hbody, -⟩ := hcaveat.ends
  obtain ⟨more', last, rfl⟩ := (List.eq_nil_or_concat more).resolve_left hne
  rw [List.concat_eq_append, ← List.append_assoc] at hbody
  obtain ⟨-, hlast⟩ := List.append_inj' hbody rfl
  obtain rfl := (List.cons.inj hlast).1
  exact hstop
    (hmore.subset (by rw [List.concat_eq_append]; exact List.mem_append_right _ List.mem_cons_self))

/-! ### Parts of a text -/

theorem caveatWidth_of_not_letter {ch : Char} (h : isLetter ch = false) :
    p.caveatWidth (ch :: text) = none := by
  rw [Option.eq_none_iff_forall_ne_some]
  intro width hwidth
  obtain ⟨taken, rest, hsplit, -, hcaveat⟩ := (caveatWidth_iff _ _).mp hwidth
  obtain ⟨first, more, rfl, hfirst⟩ := hcaveat.letters.1
  obtain ⟨rfl, -⟩ := List.cons.inj hsplit
  rw [h] at hfirst
  exact Bool.noConfusion hfirst

theorem isLetter_of_isWord {ch : Char} (h : p.isWord ch = false) : isLetter ch = false := by
  refine Bool.eq_false_iff.mpr fun hletter => ?_
  rw [isWord_of_letter hletter] at h
  exact Bool.noConfusion h

/-- What follows a symbol that neither a word nor a caveat goes across is scanned for itself. -/
theorem caveatWhole_join {ch : Char} (hword : p.isWord ch = false)
    (hnot : ¬ p.Crosses front (ch :: back)) :
    p.CaveatWhole (front ++ ch :: back) ↔ p.CaveatWhole front ∧ p.CaveatWhole back := by
  have hkept : p.stripOwnCaveat (ch :: back) = ch :: p.stripOwnCaveat back :=
    substitute_kept (caveatWidth_of_not_letter (isLetter_of_isWord hword))
  rw [caveatWhole_iff_search, caveatWhole_iff_search, caveatWhole_iff_search,
    stripOwnCaveat_append hnot, hkept, highStakesSearch_join hword, not_or]

theorem caveatWhole_nil : p.CaveatWhole [] := by
  rw [caveatWhole_iff_search]
  exact Bool.eq_false_iff.mp highStakesSearch_nil

/-- A text is free where each high-stakes word has a letter that it has not. -/
theorem exists_letter_of_all {text : Text}
    (h : (highStakesWords.all fun word => word.any fun ch =>
      text.all fun other => decide (foldCase other ≠ ch)) = true) :
    ∀ word ∈ highStakesWords, ∃ ch ∈ word, ∀ other ∈ text, foldCase other ≠ ch := by
  intro word hword
  obtain ⟨ch, hch, hall⟩ := List.any_eq_true.mp (List.all_eq_true.mp h word hword)
  exact ⟨ch, hch, forall_mem_of_all hall⟩

theorem caveatWhole_of_letters
    (h : ∀ word ∈ highStakesWords, ∃ ch ∈ word, ∀ other ∈ text, foldCase other ≠ ch) :
    p.CaveatWhole text := by
  have hnone : ∀ {before word after : Text}, text = before ++ (word ++ after) →
      word.map foldCase ∉ highStakesWords := by
    intro before word after hsplit hword
    obtain ⟨ch, hch, hother⟩ := h _ hword
    obtain ⟨other, hmem, rfl⟩ := List.mem_map.mp hch
    refine hother other ?_ rfl
    rw [hsplit]
    exact List.mem_append_right _ (List.mem_append_left _ hmem)
  exact ⟨fun _ _ _ hsplit hstands => absurd hstands.word (hnone hsplit),
    fun _ _ _ hsplit hword => absurd hword (hnone hsplit)⟩

/-- Blanks before a text add nothing. -/
theorem caveatWhole_blanks {blanks : Text} (hblanks : ∀ ch ∈ blanks, p.isspace ch = true)
    (text : Text) :
    p.CaveatWhole (blanks ++ text) ↔ p.CaveatWhole text := by
  induction blanks with
  | nil => rfl
  | cons ch blanks ih =>
      have hword : p.isWord ch = false := isWord_space (hblanks ch List.mem_cons_self)
      have hjoin : p.CaveatWhole ([] ++ ch :: (blanks ++ text))
          ↔ p.CaveatWhole [] ∧ p.CaveatWhole (blanks ++ text) :=
        caveatWhole_join hword fun ⟨_, _, hbegun, hne, _⟩ => hne (List.suffix_nil.mp hbegun)
      rw [List.cons_append, ← List.nil_append (ch :: (blanks ++ text)), hjoin,
        and_iff_right caveatWhole_nil]
      exact ih fun other hother => hblanks other (List.mem_cons_of_mem _ hother)

theorem not_mem_stop_of_blanks {blanks : Text} (hblanks : ∀ ch ∈ blanks, p.isspace ch = true) :
    '.' ∉ blanks := by
  intro hmem
  have hstop := hblanks '.' hmem
  rw [p.stop.2] at hstop
  exact Bool.noConfusion hstop

/-- Blanks behind a text add nothing. -/
theorem caveatWhole_append_blanks {blanks : Text} (hblanks : ∀ ch ∈ blanks, p.isspace ch = true)
    (text : Text) :
    p.CaveatWhole (text ++ blanks) ↔ p.CaveatWhole text := by
  cases blanks with
  | nil => rw [List.append_nil]
  | cons ch blanks =>
      have hword : p.isWord ch = false := isWord_space (hblanks ch List.mem_cons_self)
      rw [caveatWhole_join hword (not_crosses_of_no_stop (not_mem_stop_of_blanks hblanks)),
        and_iff_left]
      have hrest : ∀ other ∈ blanks, p.isspace other = true := fun other hother =>
        hblanks other (List.mem_cons_of_mem _ hother)
      have hnone : p.CaveatWhole (blanks ++ []) := (caveatWhole_blanks hrest []).mpr caveatWhole_nil
      rwa [List.append_nil] at hnone

theorem caveatWhole_rstrip (text : Text) : p.CaveatWhole (p.rstrip text) ↔ p.CaveatWhole text := by
  have hsplit : text = p.rstrip text ++ text.rtakeWhile p.isspace :=
    List.rdropWhile_append_rtakeWhile.symm
  conv_rhs => rw [hsplit]
  exact (caveatWhole_append_blanks (fun ch hch => List.mem_rtakeWhile_imp hch) _).symm

theorem caveatWhole_lstrip (text : Text) : p.CaveatWhole (p.lstrip text) ↔ p.CaveatWhole text := by
  have hsplit : text = text.takeWhile p.isspace ++ p.lstrip text :=
    List.takeWhile_append_dropWhile.symm
  conv_rhs => rw [hsplit]
  exact (caveatWhole_blanks (fun ch hch => List.mem_takeWhile_imp hch) _).symm

theorem isWord_ellipsis : p.isWord '…' = false := by
  rw [isWord_eq, p.dots.1]
  rfl

/-- An ellipsis parts what stands before it from what stands behind it. -/
theorem caveatWhole_ellipsis (front back : Text) :
    p.CaveatWhole (front ++ '…' :: back) ↔ p.CaveatWhole front ∧ p.CaveatWhole back := by
  refine caveatWhole_join isWord_ellipsis (not_crosses_of_symbol ?_ ?_ (by decide))
  · exact isLetter_of_isWord (p := p) isWord_ellipsis
  · rw [isSeparator, p.dots.2]
    rfl

/-- A caveat at the head is recognised, and hides nothing of what follows it. -/
theorem IsCaveat.caveatWhole_append (h : p.IsCaveat taken) (rest : Text) :
    p.CaveatWhole (taken ++ rest) ↔ p.CaveatWhole rest := by
  have hwidth : p.caveatWidth (taken ++ rest) = some taken.length :=
    (caveatWidth_iff _ _).mpr ⟨taken, rest, rfl, rfl, h⟩
  have hcut : p.stripOwnCaveat (taken ++ rest) = ' ' :: p.stripOwnCaveat rest := by
    rw [stripOwnCaveat, substitute_cut p.caveatWidth_bounded hwidth, List.drop_left]
    rfl
  rw [caveatWhole_iff_search, caveatWhole_iff_search, hcut,
    ← List.nil_append (' ' :: p.stripOwnCaveat rest), highStakesSearch_join isWord_blank,
    highStakesSearch_nil, or_iff_right Bool.false_ne_true]

/-! ### The caveat that the app appends -/

/-- The words of the caveat, each with what follows it. -/
def caveatPieces : List (Text × Text) :=
  [("This", " "), ("summary", " "), ("is", " "), ("decision", " "), ("support", " "),
    ("only", " "), ("and", " "),
    ("is", " "), ("not", " "), ("medical", ", "), ("legal", ", "), ("financial", ", "),
    ("safety", ", "), ("or", " "),
    ("regulated", " "), ("professional", " ")].map fun piece => (piece.1.toList, piece.2.toList)

/-- Words with separators between them spell what they fold to. -/
theorem spells_pieces (last : Text) : ∀ pieces : List (Text × Text),
    (∀ piece ∈ pieces, piece.2 ≠ [] ∧ ∀ ch ∈ piece.2, p.isSeparator ch = true) →
      p.Spells (pieces.map (fun piece => piece.1.map foldCase) ++ [last.map foldCase])
        (pieces.flatMap (fun piece => piece.1 ++ piece.2) ++ last) := by
  intro pieces hpieces
  induction pieces with
  | nil => rfl
  | cons piece pieces ih =>
      have hrest := ih fun other hother => hpieces other (List.mem_cons_of_mem _ hother)
      obtain ⟨hne, hsep⟩ := hpieces piece List.mem_cons_self
      obtain ⟨token, tokens, htokens⟩ : ∃ token tokens,
          pieces.map (fun piece => piece.1.map foldCase) ++ [last.map foldCase] = token :: tokens :=
        List.exists_cons_of_ne_nil (List.append_ne_nil_of_right_ne_nil _ (List.cons_ne_nil _ _))
      rw [List.map_cons, List.cons_append, List.flatMap_cons, List.append_assoc, List.append_assoc]
      rw [htokens] at hrest ⊢
      exact ⟨piece.1, piece.2, _, rfl, rfl, hne, hsep, hrest⟩

/-- The appended caveat is recognised, and so is what a cut leaves of it from the marker on. -/
theorem isCaveat_fullCaveat : p.IsCaveat fullCaveat ∧ p.IsCaveat (fullCaveat.drop 16) := by
  have hgaps : ∀ piece ∈ caveatPieces,
      piece.2 ≠ [] ∧ (piece.2.all fun ch => decide (ch = ' ' ∨ ch = ',')) = true :=
    forall_mem_of_all (by decide +kernel)
  have hsep : ∀ piece ∈ caveatPieces, piece.2 ≠ [] ∧ ∀ ch ∈ piece.2, p.isSeparator ch = true := by
    intro piece hpiece
    refine ⟨(hgaps piece hpiece).1, fun ch hch => ?_⟩
    rcases forall_mem_of_all (hgaps piece hpiece).2 ch hch with rfl | rfl
    · rw [isSeparator, p.blanks.1]
      rfl
    · exact Bool.or_true _
  have hwhole := spells_pieces (p := p) "advice".toList caveatPieces hsep
  have hcut := spells_pieces (p := p) "advice".toList (caveatPieces.drop 3) fun piece hpiece =>
    hsep piece (List.mem_of_mem_drop hpiece)
  exact ⟨⟨fullCaveat.dropLast, [],
    by decide +kernel, .inl hwhole, fun ch hch => absurd hch List.not_mem_nil⟩,
    ⟨(fullCaveat.drop 16).dropLast, [],
      by decide +kernel, .inr hcut, fun ch hch => absurd hch List.not_mem_nil⟩⟩

theorem caveatWhole_fullCaveat : p.CaveatWhole fullCaveat := by
  have hwhole := (isCaveat_fullCaveat.1.caveatWhole_append (p := p) []).mpr caveatWhole_nil
  rwa [List.append_nil] at hwhole

/-- A caveat that goes across the blank before the appended one would need the letters of both. -/
theorem not_crosses_fullCaveat : ¬ p.Crosses front (' ' :: fullCaveat) := by
  rintro ⟨begun, more, -, hbegun, hmore, hne, hcaveat⟩
  obtain ⟨body, hbody, -⟩ := hcaveat.ends
  obtain ⟨before, last, rfl⟩ := (List.eq_nil_or_concat more).resolve_left hne
  rw [List.concat_eq_append] at hbody hmore hcaveat
  obtain rfl : last = '.' := by
    rw [← List.append_assoc] at hbody
    exact (List.cons.inj (List.append_inj' hbody rfl).2).1
  have hends : ' ' :: fullCaveat = ' ' :: fullCaveat.dropLast ++ ['.'] := by decide +kernel
  rw [hends, List.prefix_concat_iff] at hmore
  rcases hmore with hmore | hmore
  · obtain ⟨⟨first, rest, hfirst, hletter⟩, hletters⟩ := hcaveat.letters
    rw [hmore, ← hends] at hfirst hletters
    obtain ⟨head, tail, rfl⟩ := List.exists_cons_of_ne_nil hbegun
    obtain rfl := (List.cons.inj hfirst).1
    have hall : (' ' :: fullCaveat).countP isLetter = caveatLetters := by decide +kernel
    rw [List.countP_append, hall, List.countP_cons_of_pos hletter] at hletters
    omega
  · have hstop : '.' ∉ ' ' :: fullCaveat.dropLast := by decide +kernel
    exact hstop (hmore.subset (List.mem_append_right _ (List.mem_singleton_self _)))

/-- The caveat that the app appends is recognised, and adds nothing to what stands before it. -/
theorem caveatWhole_append_fullCaveat (text : Text) :
    p.CaveatWhole (text ++ ' ' :: fullCaveat) ↔ p.CaveatWhole text := by
  rw [caveatWhole_join isWord_blank not_crosses_fullCaveat, and_iff_left caveatWhole_fullCaveat]

theorem caveatWhole_appendIfMissing (text : Text) : p.CaveatWhole (p.appendIfMissing text)
    ↔ p.CaveatWhole text := by
  rw [TextTables.appendIfMissing]
  split_ifs with hmissing hblank
  · rfl
  · rw [← caveatWhole_rstrip text, hblank]
    exact iff_of_true caveatWhole_fullCaveat caveatWhole_nil
  · rw [caveatWhole_append_fullCaveat, caveatWhole_rstrip]

/-! ### The cut -/

/-- What of a text without the caveat stays before the one that is appended. -/
def keptBody (text : Text) : Text :=
  let bodyBudget := recommendationMaxChars - fullCaveat.length - 1
  if text.length ≤ bodyBudget then text else text.take (sectionCut bodyBudget text)

/-- What a cut keeps of the text before the caveat. -/
def keptBefore (text : Text) (caveatIndex : ℕ) : Text :=
  let onward := (text.drop caveatIndex).length
  if recommendationMaxChars ≤ onward + 4 then []
  else text.take
    (min (sectionCut (recommendationMaxChars - onward - 4) (text.take caveatIndex)) caveatIndex)

/-- The caveat stands whole at the head of the text and the rest is free; or none begins there, and
the text is. -/
def FreeOnward (p : SafetyTables) (text : Text) : Prop :=
  (∃ caveat rest, text = caveat ++ rest ∧ p.IsCaveat caveat ∧ p.CaveatWhole rest)
    ∨ p.caveatWidth text = none ∧ p.CaveatWhole text

/-- The texts whose recommendation asks for no warning when it is sent again: what is kept before
the caveat has no word of its own, and the cut finds the caveat where it begins. -/
structure ResendsFree (p : SafetyTables) (text : Text) : Prop where
  missing : p.caveatIndex text = none → p.CaveatWhole (keptBody text)
  uncut : ∀ caveatIndex, p.caveatIndex text = some caveatIndex →
    text.length ≤ recommendationMaxChars →
    p.CaveatWhole text
  cut : ∀ caveatIndex, p.caveatIndex text = some caveatIndex →
    recommendationMaxChars < text.length →
    p.CaveatWhole (keptBefore text caveatIndex) ∧ p.FreeOnward (text.drop caveatIndex)

theorem freeOnward_iff (text : Text) : p.FreeOnward text ↔ p.CaveatWhole text := by
  constructor
  · rintro (⟨caveat, rest, rfl, hcaveat, hrest⟩ | ⟨-, hwhole⟩)
    · exact (hcaveat.caveatWhole_append rest).mpr hrest
    · exact hwhole
  · intro hwhole
    cases hwidth : p.caveatWidth text with
    | none => exact .inr ⟨hwidth, hwhole⟩
    | some width =>
        obtain ⟨caveat, rest, rfl, -, hcaveat⟩ := (caveatWidth_iff _ _).mp hwidth
        exact .inl ⟨caveat, rest, rfl, hcaveat, (hcaveat.caveatWhole_append rest).mp hwhole⟩

theorem rstrip_ellipsis (text : Text) : p.rstrip (text ++ ellipsis) = text ++ ellipsis :=
  List.rdropWhile_concat_neg _ _ _ (Bool.eq_false_iff.mp p.dots.2)

/-- A section that is cut says of the scan what is kept of it says. -/
theorem caveatWhole_truncateSection {maxChars : ℕ} (h : maxChars < text.length) (back : Text) :
    p.CaveatWhole (p.truncateSection maxChars text ++ back)
      ↔ p.CaveatWhole (text.take (sectionCut maxChars text)) ∧ p.CaveatWhole back := by
  rw [p.truncateSection_of_lt h, List.append_assoc, ellipsis, List.singleton_append,
    caveatWhole_ellipsis, caveatWhole_rstrip]

theorem caveatWhole_truncateWithCaveatPresent (caveatIndex : ℕ)
    (hlong : recommendationMaxChars < text.length) :
    p.CaveatWhole (p.truncateWithCaveatPresent text caveatIndex)
      ↔ p.CaveatWhole (keptBefore text caveatIndex) ∧ p.CaveatWhole (text.drop caveatIndex) := by
  have hsplit : (text.take caveatIndex).length + (text.drop caveatIndex).length = text.length := by
    rw [← List.length_append, List.take_append_drop]
  rw [TextTables.truncateWithCaveatPresent, keptBefore]
  dsimp only
  rw [if_neg (by omega)]
  split_ifs with hover hellipsis
  · rw [caveatWhole_rstrip, and_iff_right caveatWhole_nil]
  · have hcut : recommendationMaxChars - (text.drop caveatIndex).length - 4
        < (text.take caveatIndex).length := by omega
    have hblanks : ∀ ch ∈ "  ".toList, p.isspace ch = true := by
      intro ch hch
      obtain rfl : ch = ' ' := by
        have hall : ∀ ch ∈ "  ".toList, ch = ' ' := forall_mem_of_all (by decide +kernel)
        exact hall ch hch
      exact p.blanks.1
    rw [p.truncateSection_of_lt hcut, rstrip_ellipsis, ← p.truncateSection_of_lt hcut,
      List.append_assoc, caveatWhole_truncateSection hcut, List.take_take,
      caveatWhole_blanks hblanks, caveatWhole_lstrip]
  · rw [p.truncateSection_of_lt (by omega), rstrip_ellipsis] at hellipsis
    exact absurd (List.isSuffixOf_iff_suffix.mpr (List.suffix_append _ _)) hellipsis

theorem resendsFree_missing (h : p.caveatIndex text = none) : p.ResendsFree text
    ↔ p.CaveatWhole (keptBody text) := by
  refine ⟨fun hfree => hfree.missing h, fun hkept => ⟨fun _ => hkept, ?_, ?_⟩⟩
  · intro caveatIndex hindex
    rw [h] at hindex
    cases hindex
  · intro caveatIndex hindex
    rw [h] at hindex
    cases hindex

theorem resendsFree_present {caveatIndex : ℕ} (h : p.caveatIndex text = some caveatIndex) :
    p.ResendsFree text ↔ if text.length ≤ recommendationMaxChars then p.CaveatWhole text
      else p.CaveatWhole (keptBefore text caveatIndex) ∧ p.FreeOnward (text.drop caveatIndex) := by
  have hsame : ∀ {other}, p.caveatIndex text = some other → other = caveatIndex := by
    intro other hother
    rw [h] at hother
    exact (Option.some.inj hother).symm
  split_ifs with hfits
  · refine ⟨fun hfree => hfree.uncut _ h hfits,
      fun hwhole => ⟨fun hnone => ?_, fun _ _ _ => hwhole, ?_⟩⟩
    · rw [h] at hnone
      cases hnone
    · exact fun _ _ hlong => absurd hfits (Nat.not_le_of_lt hlong)
  · refine ⟨fun hfree => hfree.cut _ h (Nat.lt_of_not_le hfits),
      fun hcut => ⟨fun hnone => ?_, ?_, ?_⟩⟩
    · rw [h] at hnone
      cases hnone
    · exact fun _ _ hshort => absurd hshort hfits
    · intro other hother hlong
      rwa [hsame hother]

/-- The text that the app is given decides whether the recommendation it makes of it is free. -/
theorem caveatWhole_truncateRecommendation (text : Text) :
    p.CaveatWhole (p.truncateRecommendation text) ↔ p.ResendsFree text := by
  rw [TextTables.truncateRecommendation]
  by_cases hempty : text = []
  · subst hempty
    rw [if_pos rfl, caveatWhole_appendIfMissing]
    have hkept : keptBody [] = [] := by decide +kernel
    cases hindex : p.caveatIndex [] with
    | none => rw [resendsFree_missing hindex, hkept]
    | some caveatIndex => rw [resendsFree_present hindex, List.length_nil, if_pos (Nat.zero_le _)]
  · rw [if_neg hempty]
    cases hindex : p.caveatIndex text with
    | none =>
        rw [resendsFree_missing hindex]
        dsimp only [keptBody]
        have hbudget : recommendationMaxChars - fullCaveat.length - 1 ≠ 0 := by decide +kernel
        rw [if_neg hbudget]
        split_ifs with hfits
        · exact caveatWhole_appendIfMissing text
        · have hcut := caveatWhole_truncateSection (p := p) (Nat.lt_of_not_le hfits) []
          rw [caveatWhole_appendIfMissing]
          rwa [List.append_nil, and_iff_left caveatWhole_nil] at hcut
    | some caveatIndex =>
        rw [resendsFree_present hindex]
        dsimp only
        split_ifs with hfits
        · rw [TextTables.truncateWithCaveatPresent, if_pos hfits]
        · rw [caveatWhole_truncateWithCaveatPresent caveatIndex (Nat.lt_of_not_le hfits),
            freeOnward_iff]

end Quorum.SafetyTables
