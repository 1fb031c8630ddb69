import Quorum.BaseScan

/-! The evidence fence around untrusted prose (`untrusted_text`): the letters a character counts as,
the redaction of forged markers and the fence itself. -/

namespace Quorum

abbrev Text := List Char

scoped instance lawfulBEq_text : LawfulBEq Text := inferInstance

/-- What `unicodedata` and the string methods say of one character. -/
structure UnicodeData where
  nfkc : Char → Text
  nfkd : Char → Text
  isalnum : Char → Bool
  upper : Char → Text

def untrustedBegin : Text := "<<<UNTRUSTED_EVIDENCE_BEGIN>>>".toList

def untrustedEnd : Text := "<<<UNTRUSTED_EVIDENCE_END>>>".toList

def redacted : Text := "[redacted-delimiter]".toList

/-- The two markers as their letters alone (`_MARKER_LETTERS`). -/
def markerLetters : List Text :=
  [untrustedBegin, untrustedEnd].map fun marker => marker.filter Char.isAlphanum

/-- The Hangul fillers, letters that render as blank space. -/
def blankLetters : Text := ['\u115f', '\u1160', '\u3164', '\uffa0']

/-- Cyrillic and Greek letters folded to the Latin letter they look like. -/
def lookAlikes : List (Char × Char) :=
  [('\u0412', 'B'), ('\u0392', 'B'), ('\u0421', 'C'), ('\u0441', 'C'), ('\u0501', 'D'),
    ('\u0415', 'E'), ('\u0435', 'E'), ('\u0395', 'E'), ('\u050c', 'G'), ('\u0406', 'I'),
    ('\u0456', 'I'), ('\u04c0', 'I'), ('\u04cf', 'I'), ('\u0399', 'I'), ('\u039d', 'N'),
    ('\u0433', 'R'), ('\u0405', 'S'), ('\u0455', 'S'), ('\u0422', 'T'), ('\u03a4', 'T'),
    ('\u03c5', 'U'), ('\u0474', 'V'), ('\u0475', 'V'), ('\u03bd', 'V')]

namespace UnicodeData

variable (u : UnicodeData)

/-- The letters one decomposed character counts as. -/
def lettersOfBase (base : Char) : Text :=
  match lookAlikes.lookup base with
  | some latin => [latin]
  | none =>
      if u.isalnum base ∧ base ∉ blankLetters then
        ((u.upper base).map fun up => (lookAlikes.lookup up).getD up).filter u.isalnum
      else []

/-- The letters and digits one character counts as when looking for a marker. -/
def lettersOf (ch : Char) : Text :=
  (u.nfkc ch).flatMap fun normal => (u.nfkd normal).flatMap u.lettersOfBase

/-- The character reads, after NFKC, as nothing but `<` and `>`. -/
def isBracket (ch : Char) : Bool :=
  !(u.nfkc ch).isEmpty && (u.nfkc ch).all fun normal => normal == '<' || normal == '>'

/-- The letters of a whole text. -/
def letters (text : Text) : Text :=
  text.flatMap u.lettersOf

/-- The span's start, moved back over the brackets directly before it. -/
def widenStart (text : Text) (keptFrom : Nat) : Nat → Nat
  | 0 => 0
  | start + 1 =>
      if start + 1 > keptFrom ∧ (text.getD start ' ' |> u.isBracket) then
        widenStart text keptFrom start
      else start + 1

/-- The span's end, moved on over the brackets of what follows it. -/
def widenEnd : Text → Nat → Nat
  | [], stop => stop
  | ch :: rest, stop => if u.isBracket ch then widenEnd rest (stop + 1) else stop

/-- The pieces written so far and where the text not yet copied begins. -/
structure Redaction where
  pieces : List Text
  keptFrom : Nat

/-- One round of the loop over the matches. -/
def redactMatch (text : Text) (state : Redaction) (found : Nat × Nat) : Redaction :=
  let origin := letterOrigin u.lettersOf text
  let start := max (origin.getD found.1 0) state.keptFrom
  let stop := max (origin.getD (found.2 - 1) 0 + 1) start
  let start := u.widenStart text state.keptFrom start
  let stop := u.widenEnd (text.drop stop) stop
  { pieces := state.pieces ++ [(text.take start).drop state.keptFrom, redacted.take (stop - start)]
    keptFrom := stop }

/-- Stop untrusted prose from forging a delimiter. -/
def neutralizeDelimiters (text : Text) : Text :=
  match finditer markerLetters (u.letters text) with
  | [] => text
  | found :: rest =>
      let state := (found :: rest).foldl (u.redactMatch text) ⟨[], 0⟩
      (state.pieces ++ [text.drop state.keptFrom]).flatten

/-- The text in the untrusted-evidence delimiters, neutralized first. -/
def fence (text : Text) : Text :=
  untrustedBegin ++ '\n' :: (u.neutralizeDelimiters text ++ '\n' :: untrustedEnd)

/-- The judge's user prompt: the body between the first and the last part, joined and then
fenced. -/
def fencedUserPrompt (parts : List Text) : Text :=
  u.fence (List.intercalate ['\n'] (parts.tail.dropLast))

end UnicodeData

end Quorum
