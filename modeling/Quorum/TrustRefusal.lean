import Quorum.ConsensusStrength

/-! Refusal detection (`evaluation`): a decline phrase in the first sentence of an answer that
answers. -/

namespace Quorum

def refusalPhrases : List Text :=
  ["i can't help", "i cannot help", "cannot help with that", "i can't provide", "i cannot provide",
    "i can't assist", "i cannot assist", "i can't write", "i cannot write", "i can't do that",
    "i am unable to", "i'm unable to", "unable to assist with", "i won't", "i will not write",
    "i will not provide", "i am not able to", "i'm not able to"].map String.toList

def isTerminal (ch : Char) : Bool := ch == '.' || ch == '!' || ch == '?'

def isCloser (ch : Char) : Bool := ch ∈ ['"', '\'', '’', ')', ']']

/-- Some refusal phrase stands in the text. -/
def declines (text : Text) : Bool := refusalPhrases.any fun phrase => phrase <:+: text

namespace PanelTables

variable (p : PanelTables)

/-- How much `_SENTENCE_BOUNDARY_RE` consumes here: a line break, or a terminal with its closers and
one space or the end of the text. -/
def sentenceEnd (text : Text) : Option ℕ :=
  match text with
  | [] => none
  | ch :: rest =>
      if ch = '\n' then some 1
      else if isTerminal ch then
        let closers := rest.takeWhile isCloser
        match rest.drop closers.length with
        | [] => some (1 + closers.length)
        | next :: _ => if p.isspace next then some (2 + closers.length) else none
      else none

theorem sentenceEnd_pos {text : Text} {width : ℕ} (h : p.sentenceEnd text = some width) :
    0 < width := by
  unfold sentenceEnd at h
  split at h
  · cases h
  · dsimp only at h
    split_ifs at h with hbreak hterminal
    · exact Option.some.inj h ▸ one_pos
    · split at h
      · have := Option.some.inj h
        omega
      · split_ifs at h
        have := Option.some.inj h
        omega

/-- The first boundary: where it starts and where it ends. -/
def findBoundary (text : Text) : Option (ℕ × ℕ) :=
  (List.range text.length).findSome? fun start =>
    (p.sentenceEnd (text.drop start)).map fun width => (start, start + width)

theorem findBoundary_lt {text : Text} {start stop : ℕ}
    (h : p.findBoundary text = some (start, stop)) :
    start < stop ∧ start < text.length := by
  obtain ⟨place, hplace, hfound⟩ := List.exists_of_findSome?_eq_some h
  obtain ⟨width, hwidth, hpair⟩ := Option.map_eq_some_iff.mp hfound
  obtain ⟨rfl, rfl⟩ := Prod.mk.inj hpair
  refine ⟨?_, List.mem_range.mp hplace⟩
  exact Nat.lt_add_of_pos_right (p.sentenceEnd_pos hwidth)

/-- The loop of `_split_first_sentence`: fragments without a word are stepped over. -/
def splitSentence (rest : Text) : Text × Text :=
  match _h : p.findBoundary rest with
  | none => if rest.any p.isWord then (rest, []) else ([], [])
  | some (start, stop) =>
      let head := rest.take start
      let tail := p.lstrip (rest.drop stop)
      if head.any p.isWord then (head, tail) else splitSentence tail
termination_by rest.length
decreasing_by
  have hlt := p.findBoundary_lt _h
  have htail := p.length_lstrip_le (rest.drop stop)
  rw [List.length_drop] at htail
  omega

def splitFirstSentence (text : Text) : Text × Text := p.splitSentence (p.lstrip text)

def firstSentence (text : Text) : Text := (p.splitFirstSentence text).1

def afterFirstSentence (text : Text) : Text := (p.splitFirstSentence text).2

/-- `re.sub` of `\bcan not\b`; `before` is the character before the text, and what a match covers is
skipped. -/
def foldNegation : ℕ → Option Char → Text → Text
  | _, _, [] => []
  | skip + 1, _, ch :: rest => foldNegation skip (some ch) rest
  | 0, before, ch :: rest =>
      if "can not".toList.isPrefixOf (ch :: rest) && !before.any p.isWord
          && !((rest.drop 6).head?.any p.isWord) then
        "cannot".toList ++ foldNegation 6 (some ch) rest
      else ch :: foldNegation 0 (some ch) rest

def normalizeDeclineSpelling (text : Text) : Text :=
  p.foldNegation 0 none (text.map fun ch => if ch = '’' then '\'' else ch)

/-- `_APOLOGY_RE` finds something: the word `sorry`, or a word that begins with `apolog`. -/
def apologises (sentence : Text) : Bool :=
  p.hasWord "sorry".toList sentence
    || (List.range sentence.length).any fun start =>
      "apolog".toList.isPrefixOf (sentence.drop start)
        && !((sentence.take start).getLast?.any p.isWord)

def isPureApology (sentence : Text) : Bool := p.apologises sentence && !declines sentence

/-- The sentence that a refusal is read from: the first, or the second when the first is a pure
apology. -/
def refusalAnchor (lowered : Text) : Text :=
  if p.isPureApology (p.firstSentence lowered) then p.firstSentence (p.afterFirstSentence lowered)
  else p.firstSentence lowered

def detectRefusal (text : Text) : Bool :=
  p.isVisible text && declines (p.refusalAnchor (p.normalizeDeclineSpelling (p.lower text)))

variable {p} {text : Text}

/-- A first sentence bears a word, or the text has none left. -/
theorem splitSentence_word (rest : Text) :
    p.splitSentence rest = ([], []) ∨ (p.splitSentence rest).1.any p.isWord = true := by
  fun_induction p.splitSentence rest with
  | case1 rest hnone hword => exact .inr hword
  | case2 rest hnone hword => exact .inl rfl
  | case3 rest start stop hsome head tail hword => exact .inr hword
  | case4 rest start stop hsome head tail hword ih => exact ih

theorem declines_nil : declines [] = false := by
  decide

/-- What declines does it in a sentence that bears a word. -/
theorem refusalAnchor_word (h : p.detectRefusal text = true) :
    (p.refusalAnchor (p.normalizeDeclineSpelling (p.lower text))).any p.isWord = true := by
  have hdeclines := (Bool.and_eq_true_iff.mp h).2
  have hsentence : ∀ sentence, (p.firstSentence sentence).any p.isWord = true
      ∨ p.firstSentence sentence = [] := fun sentence =>
    (splitSentence_word (p.lstrip sentence)).symm.imp id (congrArg Prod.fst)
  have hanchor : ∀ lowered, (p.refusalAnchor lowered).any p.isWord = true
      ∨ p.refusalAnchor lowered = [] := by
    intro lowered
    rw [refusalAnchor]
    split_ifs
    · exact hsentence _
    · exact hsentence _
  refine (hanchor _).resolve_right fun hempty => ?_
  rw [hempty, declines_nil] at hdeclines
  exact Bool.noConfusion hdeclines

/-- A text of one sentence is what a refusal is read from, unless it only apologises. -/
theorem refusalAnchor_whole {lowered : Text} (hone : p.findBoundary (p.lstrip lowered) = none)
    (hword : (p.lstrip lowered).any p.isWord = true)
    (hplain : p.isPureApology (p.lstrip lowered) = false) :
    p.refusalAnchor lowered = p.lstrip lowered := by
  have hsplit : p.splitFirstSentence lowered = (p.lstrip lowered, []) := by
    rw [splitFirstSentence, splitSentence]
    split
    · rw [if_pos hword]
    · next hsome => exact nomatch hone.symm.trans hsome
  rw [refusalAnchor, firstSentence, hsplit, hplain, if_neg Bool.false_ne_true]

end PanelTables

end Quorum
