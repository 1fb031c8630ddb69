import Quorum.BaseSub
import Quorum.RedactionPatterns
import Quorum.SynthesisLength

/-! The high-stakes scan of a query and its context (`safety`): the app's own caveat is taken out of
the context, and what is left is searched for words that need a warning. -/

namespace Quorum

/-- The classes of the patterns. A letter that folds to ASCII is one of `\w`, and no space is. -/
structure SafetyTables extends TextTables, RegexTables where
  letters : ∀ ch, (foldCase ch).isLower = true → isalnum ch = true
  spaces : ∀ ch, isspace ch = true → isalnum ch = false ∧ ch ≠ '_'
  blanks : isspace ' ' = true ∧ isspace '\n' = true
  stop : isalnum '.' = false ∧ isspace '.' = false
  dots : isalnum '…' = false ∧ isspace '…' = false

def warningVersion : Text := "2026-06-17".toList

def highStakesWords : List Text :=
  ["diagnosis", "medical", "medicine", "doctor", "lawyer", "legal", "lawsuit", "contract",
    "tax", "investment",
    "financial", "loan", "insurance", "safety", "hazard",
      "regulated", "compliance"].map String.toList

/-- The tokens of the clause that a truncation drops. -/
def caveatOpening : List Text := ["this", "summary", "is"].map String.toList

/-- The tokens of the caveat behind its opening. -/
def caveatTokens : List Text :=
  ["decision", "support", "only", "and", "is", "not", "medical", "legal", "financial", "safety",
    "or", "regulated",
    "professional", "advice"].map String.toList

inductive WarningType
  | sensitiveData
  | highStakes
deriving DecidableEq

def warningCopy : WarningType → Text
  | .sensitiveData =>
      ("Do not include sensitive personal data, credentials, or regulated business data in your prompt. The output is "
        ++ "logged for audit and may be reviewed by humans.").toList
  | .highStakes =>
      ("Your query mentions a high-stakes topic. The output is decision support only and is not medical, legal, "
        ++ "financial, safety, or regulated professional advice. A human reviewer must audit it before any "
        ++ "action.").toList

structure SafetyWarning where
  warningType : WarningType
  version : Text
  message : Text
  acknowledgementRequired : Bool
deriving DecidableEq

/-- A value of the context. -/
inductive ContextValue
  | str (text : Text)
  | other

namespace SafetyTables

variable (p : SafetyTables)

/-- `[\s,]`. -/
def isSeparator (ch : Char) : Bool := p.isspace ch || ch == ','

/-- The text after these tokens, with separators between them. -/
def matchTokens : List Text → Text → Option Text
  | [], text => some text
  | [token], text => if startsFolded token text then some (text.drop token.length) else none
  | token :: tokens, text =>
      if startsFolded token text then
        let rest := text.drop token.length
        if rest.head?.any p.isSeparator then
          matchTokens tokens (rest.dropWhile p.isSeparator) else none
      else none

/-- `[\s,]*\.`. -/
def matchStop (text : Text) : Option Text :=
  match text.dropWhile p.isSeparator with
  | '.' :: rest => some rest
  | _ => none

/-- `_OWN_CAVEAT_PATTERN` at the head of the text: how much it takes. -/
def caveatWidth (text : Text) : Option ℕ :=
  ((p.matchTokens (caveatOpening ++ caveatTokens) text).bind p.matchStop
    <|> (p.matchTokens caveatTokens text).bind p.matchStop).map fun rest =>
      text.length - rest.length

def stripOwnCaveat (text : Text) : Text := Substitution.substitute p.caveatWidth ' ' text

/-- `HIGH_STAKES_PATTERN.search`. -/
def highStakesSearch (text : Text) : Bool :=
  (List.range (text.length + 1)).any fun start =>
    highStakesWords.any fun word =>
      startsFolded word (text.drop start)
        && p.boundary (text.take start).reverse (text.drop start)
        && p.boundary (text.take (start + word.length)).reverse (text.drop (start + word.length))

/-- `_scannable_text`. -/
def scannableText (queryText : Text) (context : Option (List (Text × ContextValue))) : Text :=
  match context with
  | none => queryText
  | some [] => queryText
  | some values =>
      ['\n'].intercalate <| queryText :: values.filterMap fun entry =>
        match entry.2 with
        | .str text => if text = [] then none else some (p.stripOwnCaveat text)
        | .other => none

def requiredWarningsForQuery (queryText : Text) (context : Option (List (Text × ContextValue))) :
    List SafetyWarning :=
  { warningType := .sensitiveData, version := warningVersion, message := warningCopy .sensitiveData
    acknowledgementRequired := true }
    :: if p.highStakesSearch (p.scannableText queryText context) then
        [{ warningType := .highStakes, version := warningVersion, message := warningCopy .highStakes
           acknowledgementRequired := true }]
      else []

/-- The acknowledgement that the query needs for a high-stakes topic. -/
def RequiresHighStakes (queryText : Text) (context : Option (List (Text × ContextValue))) : Prop :=
  ∃ warning ∈ p.requiredWarningsForQuery queryText context, warning.warningType = .highStakes

variable {p} {text before word after : Text}

theorem requiresHighStakes_iff (queryText : Text) (context : Option (List (Text × ContextValue))) :
    p.RequiresHighStakes queryText context
    ↔ p.highStakesSearch (p.scannableText queryText context) = true := by
  rw [RequiresHighStakes, requiredWarningsForQuery]
  split_ifs with hsearch
  · exact iff_of_true ⟨_, List.mem_cons_of_mem _ (List.mem_singleton_self _), rfl⟩ hsearch
  · refine iff_of_false ?_ hsearch
    rintro ⟨warning, hmem, htype⟩
    obtain rfl := List.mem_singleton.mp hmem
    exact nomatch htype

/-! ### Words that stand in a text -/

/-- A high-stakes word that stands in `before ++ (word ++ after)` at word boundaries. -/
structure Stands (p : SafetyTables) (before word after : Text) : Prop where
  word : word.map foldCase ∈ highStakesWords
  left : ∀ ch ∈ before.getLast?, p.isWord ch = false
  right : ∀ ch ∈ after.head?, p.isWord ch = false

theorem isWord_eq (ch : Char) : p.isWord ch = (p.isalnum ch || decide (ch = '_')) := rfl

theorem isWord_of_letter {ch : Char} (h : (foldCase ch).isLower = true) : p.isWord ch = true := by
  rw [isWord_eq, p.letters ch h, Bool.true_or]

theorem isWord_space {ch : Char} (h : p.isspace ch = true) : p.isWord ch = false := by
  obtain ⟨halnum, hline⟩ := p.spaces ch h
  rw [isWord_eq, halnum, Bool.false_or, decide_eq_false hline]

theorem isWord_stop : p.isWord '.' = false := by
  rw [isWord_eq, p.stop.1]
  rfl

theorem highStakesWords_letters : ∀ word ∈ highStakesWords, word ≠ [] ∧ ∀ ch ∈ word,
    ch.isLower = true := by
  have hall : (highStakesWords.all fun word => !word.isEmpty && word.all Char.isLower) = true := by
    decide
  intro word hword
  have hone := List.all_eq_true.mp hall word hword
  rw [Bool.and_eq_true, Bool.not_eq_true', List.isEmpty_eq_false_iff, List.all_eq_true] at hone
  exact hone

theorem letters_of_mem {words : List Text}
    (hwords : ∀ word ∈ words, word ≠ [] ∧ ∀ ch ∈ word, ch.isLower = true)
    (h : word.map foldCase ∈ words) : word ≠ [] ∧ ∀ ch ∈ word, (foldCase ch).isLower = true := by
  obtain ⟨hne, hall⟩ := hwords _ h
  exact ⟨fun hnil => hne (by rw [hnil, List.map_nil]),
    fun ch hch => hall _ (List.mem_map_of_mem hch)⟩

theorem boundary_before (before rest : Text) {first : Char} (hfirst : p.isWord first = true) :
    p.boundary before.reverse (first :: rest) = true
    ↔ ∀ ch ∈ before.getLast?, p.isWord ch = false := by
  rw [RegexTables.boundary, List.head?_reverse, List.head?_cons]
  cases before.getLast? with
  | none => simp [hfirst]
  | some ch => cases hch : p.isWord ch <;> simp [hfirst, hch]

theorem boundary_after (front after : Text) {last : Char} (hlast : p.isWord last = true) :
    p.boundary (front ++ [last]).reverse after = true
    ↔ ∀ ch ∈ after.head?, p.isWord ch = false := by
  rw [RegexTables.boundary, List.head?_reverse, List.getLast?_concat]
  cases after.head? with
  | none => simp [hlast]
  | some ch => cases hch : p.isWord ch <;> simp [hlast, hch]

/-- The search finds just the words that stand in the text. -/
theorem highStakesSearch_iff (text : Text) :
    p.highStakesSearch text = true
      ↔ ∃ before word after, text = before ++ (word ++ after) ∧ p.Stands before word after := by
  have hbounds : ∀ before word after : Text, word.map foldCase ∈ highStakesWords →
      (p.boundary before.reverse (word ++ after) = true
        ∧ p.boundary (before ++ word).reverse after = true
        ↔ (∀ ch ∈ before.getLast?, p.isWord ch = false) ∧ ∀ ch ∈ after.head?,
            p.isWord ch = false) := by
    intro before word after hword
    obtain ⟨hne, hletters⟩ := letters_of_mem highStakesWords_letters hword
    have hall : ∀ ch ∈ word, p.isWord ch = true := fun ch hch => isWord_of_letter (hletters ch hch)
    obtain ⟨first, rest, hfirst⟩ := List.exists_cons_of_ne_nil hne
    obtain ⟨front, last, hlast⟩ := (List.eq_nil_or_concat word).resolve_left hne
    have hleft := boundary_before before (rest ++ after)
      (hall first (by rw [hfirst]; exact List.mem_cons_self))
    have hright := boundary_after (before ++ front) after
      (hall last (by rw [hlast, List.concat_eq_append]; exact List.mem_concat_self))
    rw [← List.cons_append, ← hfirst] at hleft
    rw [List.append_assoc, ← List.concat_eq_append, ← hlast] at hright
    rw [hleft, hright]
  rw [highStakesSearch, List.any_eq_true]
  constructor
  · rintro ⟨start, -, hany⟩
    obtain ⟨token, htoken, hfound⟩ := List.any_eq_true.mp hany
    rw [Bool.and_eq_true, Bool.and_eq_true, startsFolded, decide_eq_true_eq] at hfound
    obtain ⟨⟨hword, hleft⟩, hright⟩ := hfound
    have hsplit : text = text.take start
        ++ ((text.drop start).take token.length ++ text.drop (start + token.length)) := by
      rw [← List.drop_drop, List.take_append_drop, List.take_append_drop]
    have hmem : ((text.drop start).take token.length).map foldCase ∈ highStakesWords := by
      rw [hword]
      exact htoken
    obtain ⟨hbefore, hafter⟩ :=
      (hbounds (text.take start) _ (text.drop (start + token.length)) hmem).mp (by
      rw [← List.drop_drop, List.take_append_drop, List.drop_drop, ← List.take_add]
      exact ⟨hleft, hright⟩)
    exact ⟨_, _, _, hsplit, hmem, hbefore, hafter⟩
  · rintro ⟨before, word, after, rfl, hstands⟩
    have hlength : word.length = (word.map foldCase).length := by rw [List.length_map]
    refine ⟨before.length, List.mem_range.mpr (by rw [List.length_append]; omega),
      List.any_eq_true.mpr ⟨word.map foldCase, hstands.word, ?_⟩⟩
    obtain ⟨hleft, hright⟩ :=
      (hbounds before word after hstands.word).mpr ⟨hstands.left, hstands.right⟩
    rw [List.drop_left, ← hlength, List.take_left, List.take_length_add_append,
      List.drop_length_add_append, List.drop_left, List.take_left, hleft, hright, startsFolded,
      ← hlength, List.take_left]
    simp

/-! ### The caveat's own words -/

/-- The text spells the tokens, with separators between them. -/
def Spells (p : SafetyTables) : List Text → Text → Prop
  | [], taken => taken = []
  | [token], taken => taken.map foldCase = token
  | token :: tokens, taken =>
      ∃ first gap rest, taken = first ++ (gap ++ rest) ∧ first.map foldCase = token ∧ gap ≠ []
        ∧ (∀ ch ∈ gap, p.isSeparator ch = true) ∧ Spells p tokens rest

/-- The text is the caveat, with or without its opening. -/
def IsCaveat (p : SafetyTables) (taken : Text) : Prop :=
  ∃ body gap, taken = body ++ (gap ++ ['.'])
    ∧ (p.Spells (caveatOpening ++ caveatTokens) body ∨ p.Spells caveatTokens body)
    ∧ ∀ ch ∈ gap, p.isSeparator ch = true

theorem foldCase_separator {ch : Char} (h : p.isSeparator ch = true) :
    (foldCase ch).isLower = false := by
  rw [isSeparator, Bool.or_eq_true, beq_iff_eq] at h
  rcases h with hspace | rfl
  · refine Bool.eq_false_iff.mpr fun hlower => ?_
    exact Bool.noConfusion ((p.letters ch hlower).symm.trans (p.spaces ch hspace).1)
  · decide

theorem startsFolded_append {token first : Text} (h : first.map foldCase = token) (rest : Text) :
    startsFolded token (first ++ rest) = true := by
  rw [startsFolded, ← h, List.length_map, List.take_left, decide_eq_true_eq]

theorem startsFolded_cases {token text : Text} (h : startsFolded token text = true) :
    (text.take token.length).map foldCase = token
    ∧ text = text.take token.length ++ text.drop token.length := by
  rw [startsFolded, decide_eq_true_eq] at h
  exact ⟨h, (List.take_append_drop _ _).symm⟩

/-- The tokens that a pattern can have: some letters each. -/
def Tokens (tokens : List Text) : Prop := ∀ token ∈ tokens, token ≠ []
  ∧ ∀ ch ∈ token, ch.isLower = true

theorem caveatTokens_tokens : Tokens (caveatOpening ++ caveatTokens) ∧ Tokens caveatTokens := by
  have hall : ((caveatOpening ++ caveatTokens).all fun token => !token.isEmpty
      && token.all Char.isLower) = true := by
    decide
  have hwhole : Tokens (caveatOpening ++ caveatTokens) := by
    intro token htoken
    have hone := List.all_eq_true.mp hall token htoken
    rw [Bool.and_eq_true, Bool.not_eq_true', List.isEmpty_eq_false_iff, List.all_eq_true] at hone
    exact hone
  exact ⟨hwhole, fun token htoken => hwhole token (List.mem_append_right _ htoken)⟩

theorem Spells.head {tokens : List Text} (htokens : Tokens tokens) (hne : tokens ≠ [])
    (h : p.Spells tokens text) :
    ∃ first rest, text = first :: rest ∧ p.isSeparator first = false := by
  have hword : ∀ {token word : Text}, token ∈ tokens → word.map foldCase = token →
      ∃ first rest, word = first :: rest ∧ p.isSeparator first = false := by
    intro token word htoken hfold
    obtain ⟨hnil, hletters⟩ := htokens token htoken
    cases word with
    | nil => exact absurd hfold.symm hnil
    | cons first rest =>
        refine ⟨first, rest, rfl, Bool.eq_false_iff.mpr fun hsep => ?_⟩
        have hlower := hletters (foldCase first) (by rw [← hfold]; exact List.mem_cons_self)
        rw [foldCase_separator hsep] at hlower
        exact Bool.noConfusion hlower
  match tokens, hne, h with
  | [token], _, h => exact hword (List.mem_singleton_self _) h
  | token :: next :: tokens, _, h =>
      obtain ⟨word, gap, rest, rfl, hfold, -, -, -⟩ := h
      obtain ⟨first, more, rfl, hfirst⟩ := hword List.mem_cons_self hfold
      exact ⟨first, more ++ (gap ++ rest), rfl, hfirst⟩

theorem dropWhile_gap {gap : Text} (hgap : ∀ ch ∈ gap, p.isSeparator ch = true) {first : Char}
    {rest : Text} (hfirst : p.isSeparator first = false) :
    (gap ++ first :: rest).dropWhile p.isSeparator = first :: rest := by
  rw [List.dropWhile_append, List.dropWhile_eq_nil_iff.mpr hgap]
  exact List.dropWhile_cons_of_neg (Bool.eq_false_iff.mp hfirst)

/-- The tokens are matched just where the text spells them. -/
theorem matchTokens_iff {tokens : List Text} (htokens : Tokens tokens) (hne : tokens ≠ []) :
    ∀ text rest, p.matchTokens tokens text = some rest ↔ ∃ taken, text = taken ++ rest
      ∧ p.Spells tokens taken := by
  match tokens, hne, htokens with
  | [token], _, htokens =>
      intro text rest
      rw [matchTokens]
      constructor
      · intro h
        split_ifs at h with hstarts
        obtain ⟨hfold, hsplit⟩ := startsFolded_cases hstarts
        exact ⟨text.take token.length, by rw [← Option.some.inj h, ← hsplit], hfold⟩
      · rintro ⟨taken, rfl, hfold⟩
        have hlength : token.length = taken.length := by
          rw [← show taken.map foldCase = token from hfold, List.length_map]
        rw [if_pos (startsFolded_append hfold rest), hlength, List.drop_left]
  | token :: next :: tokens, _, htokens =>
      have htail : Tokens (next :: tokens) :=
        fun other hother => htokens other (List.mem_cons_of_mem _ hother)
      have ih := matchTokens_iff htail (List.cons_ne_nil _ _)
      intro text rest
      change (if startsFolded token text then
        if (text.drop token.length).head?.any p.isSeparator then
          p.matchTokens (next :: tokens) ((text.drop token.length).dropWhile p.isSeparator)
        else none
      else none) = some rest ↔ _
      constructor
      · intro h
        split_ifs at h with hstarts hgap
        obtain ⟨hfold, hsplit⟩ := startsFolded_cases hstarts
        obtain ⟨taken, htaken, hspells⟩ := (ih _ rest).mp h
        refine ⟨text.take token.length
          ++ ((text.drop token.length).takeWhile p.isSeparator ++ taken), ?_, _, _, _, rfl,
          hfold, ?_, ?_, hspells⟩
        · rw [List.append_assoc, List.append_assoc, ← htaken, List.takeWhile_append_dropWhile,
            ← hsplit]
        · cases hrest : text.drop token.length with
          | nil =>
              rw [hrest] at hgap
              exact nomatch hgap
          | cons ch more =>
              rw [hrest, List.head?_cons, Option.any_some] at hgap
              rw [List.takeWhile_cons_of_pos hgap]
              exact List.cons_ne_nil _ _
        · exact fun ch hch => List.mem_takeWhile_imp hch
      · rintro ⟨taken, rfl, first, gap, tail, rfl, hfold, hgap, hsep, hspells⟩
        obtain ⟨letter, more, rfl, hletter⟩ := hspells.head htail (List.cons_ne_nil _ _)
        have hlength : token.length = first.length := by rw [← hfold, List.length_map]
        have hfirst : (gap ++ (letter :: more ++ rest)).head?.any p.isSeparator = true := by
          obtain ⟨sep, seps, rfl⟩ := List.exists_cons_of_ne_nil hgap
          exact hsep sep List.mem_cons_self
        rw [List.append_assoc, List.append_assoc, if_pos (startsFolded_append hfold _), hlength,
          List.drop_left, if_pos hfirst, List.cons_append, dropWhile_gap hsep hletter]
        exact (ih _ rest).mpr ⟨letter :: more, rfl, hspells⟩

theorem isSeparator_stop : p.isSeparator '.' = false := by
  rw [isSeparator, p.stop.2]
  rfl

theorem matchStop_iff (text rest : Text) :
    p.matchStop text = some rest ↔ ∃ gap, text = gap ++ '.' :: rest
      ∧ ∀ ch ∈ gap, p.isSeparator ch = true := by
  constructor
  · intro h
    unfold matchStop at h
    split at h
    · next found hfound =>
      refine ⟨text.takeWhile p.isSeparator, ?_, fun ch hch => List.mem_takeWhile_imp hch⟩
      rw [← Option.some.inj h, ← hfound, List.takeWhile_append_dropWhile]
    · exact nomatch h
  · rintro ⟨gap, rfl, hgap⟩
    rw [matchStop, dropWhile_gap hgap isSeparator_stop]
    rfl

/-- The pattern without its opening does not begin as the opening does. -/
theorem Spells.opening_ne {taken other rest rest' : Text} (h : p.Spells caveatTokens taken)
    (hother : p.Spells (caveatOpening ++ caveatTokens) other) : taken ++ rest ≠ other ++ rest' := by
  intro hsame
  obtain ⟨first, gap, tail, rfl, hfold, -, -, -⟩ := h
  obtain ⟨first', gap', tail', rfl, hfold', -, -, -⟩ := hother
  have hhead : ((first ++ (gap ++ tail)) ++ rest).head?.map foldCase = some 'd' := by
    cases first with
    | nil => exact nomatch hfold
    | cons ch more => exact congrArg List.head? hfold
  have hhead' : ((first' ++ (gap' ++ tail')) ++ rest').head?.map foldCase = some 't' := by
    cases first' with
    | nil => exact nomatch hfold'
    | cons ch more => exact congrArg List.head? hfold'
  rw [hsame, hhead'] at hhead
  exact absurd hhead (by decide)

/-- The pattern takes the caveat at the head of the text. -/
theorem caveatWidth_iff (text : Text) (width : ℕ) :
    p.caveatWidth text = some width ↔ ∃ taken rest, text = taken ++ rest ∧ taken.length = width
      ∧ p.IsCaveat taken := by
  have hmatch : ∀ {tokens}, Tokens tokens → tokens ≠ [] → ∀ rest,
      (p.matchTokens tokens text).bind p.matchStop = some rest
        ↔ ∃ body gap, text = body ++ (gap ++ '.' :: rest) ∧ p.Spells tokens body
          ∧ ∀ ch ∈ gap, p.isSeparator ch = true := by
    intro tokens htokens hne rest
    rw [Option.bind_eq_some_iff]
    constructor
    · rintro ⟨middle, hmiddle, hstop⟩
      obtain ⟨body, rfl, hbody⟩ := (matchTokens_iff htokens hne _ _).mp hmiddle
      obtain ⟨gap, rfl, hgap⟩ := (matchStop_iff _ _).mp hstop
      exact ⟨body, gap, rfl, hbody, hgap⟩
    · rintro ⟨body, gap, rfl, hbody, hgap⟩
      exact ⟨_, (matchTokens_iff htokens hne _ _).mpr ⟨body, rfl, hbody⟩,
        (matchStop_iff _ _).mpr ⟨gap, rfl, hgap⟩⟩
  have hwhole := hmatch caveatTokens_tokens.1 (by decide)
  have hplain := hmatch caveatTokens_tokens.2 (by decide)
  have hlength : ∀ {body gap rest : Text}, text = body ++ (gap ++ '.' :: rest) →
      text.length - rest.length = (body ++ (gap ++ ['.'])).length := by
    rintro body gap rest rfl
    simp only [List.length_append, List.length_cons, List.length_nil]
    omega
  rw [caveatWidth, Option.map_eq_some_iff]
  constructor
  · rintro ⟨rest, hrest, rfl⟩
    have hfound : ∃ body gap, text = body ++ (gap ++ '.' :: rest)
        ∧ (p.Spells (caveatOpening ++ caveatTokens) body ∨ p.Spells caveatTokens body)
        ∧ ∀ ch ∈ gap, p.isSeparator ch = true := by
      cases hfirst : (p.matchTokens (caveatOpening ++ caveatTokens) text).bind p.matchStop with
      | some other =>
          rw [hfirst] at hrest
          obtain rfl : other = rest := Option.some.inj hrest
          obtain ⟨body, gap, htext, hbody, hgap⟩ := (hwhole other).mp hfirst
          exact ⟨body, gap, htext, .inl hbody, hgap⟩
      | none =>
          rw [hfirst] at hrest
          obtain ⟨body, gap, htext, hbody, hgap⟩ := (hplain rest).mp hrest
          exact ⟨body, gap, htext, .inr hbody, hgap⟩
    obtain ⟨body, gap, htext, hbody, hgap⟩ := hfound
    refine ⟨body ++ (gap ++ ['.']), rest, ?_, (hlength htext).symm, body, gap, rfl, hbody, hgap⟩
    rw [htext, List.append_assoc, List.append_assoc, List.singleton_append]
  · rintro ⟨taken, rest, htext, rfl, body, gap, rfl, hbody, hgap⟩
    have hsplit : text = body ++ (gap ++ '.' :: rest) := by
      rw [htext, List.append_assoc, List.append_assoc, List.singleton_append]
    refine ⟨rest, ?_, hlength hsplit⟩
    rcases hbody with hbody | hbody
    · rw [(hwhole rest).mpr ⟨body, gap, hsplit, hbody, hgap⟩]
      rfl
    · cases hfirst : (p.matchTokens (caveatOpening ++ caveatTokens) text).bind p.matchStop with
      | some other =>
          obtain ⟨body', gap', hother, hbody', -⟩ := (hwhole other).mp hfirst
          exact absurd (hsplit.symm.trans hother) (hbody.opening_ne hbody')
      | none => exact (hplain rest).mpr ⟨body, gap, hsplit, hbody, hgap⟩

theorem caveatWidth_bounded (p : SafetyTables) : Substitution.Bounded p.caveatWidth := by
  intro text width h
  obtain ⟨taken, rest, rfl, rfl, body, gap, rfl, -, -⟩ := (caveatWidth_iff _ _).mp h
  simp only [List.length_append, List.length_cons, List.length_nil]
  omega

end SafetyTables

end Quorum
