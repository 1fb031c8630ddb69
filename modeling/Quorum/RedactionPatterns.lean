import Quorum.BaseIsoTime
import Quorum.FenceLetters
import Mathlib.Tactic

/-! The scrubber of log texts: five patterns for what looks like a secret, each replaced wherever it
matches. A pattern is what it takes of the text at a position, given the text before it. -/

open IsoTime

namespace Quorum

/-- The classes of `re` that depend on Unicode: the letters and digits of `\w`, the blanks of
`\s`. -/
structure RegexTables where
  isalnum : Char → Bool
  isspace : Char → Bool

/-- How many characters a pattern takes, of the text before the position (reversed) and after it. -/
abbrev Pattern := Text → Text → Option ℕ

def redactedText : Text := "[REDACTED]".toList

/-- `pattern.sub` past the next `skip` characters, which a match took. -/
def Pattern.subFrom (pattern : Pattern) : ℕ → Text → Text → Text
  | _, _, [] => []
  | skip + 1, before, ch :: rest => subFrom pattern skip (ch :: before) rest
  | 0, before, ch :: rest =>
      match pattern before (ch :: rest) with
      | some (taken + 1) => redactedText ++ subFrom pattern taken (ch :: before) rest
      | _ => ch :: subFrom pattern 0 (ch :: before) rest

def Pattern.sub (pattern : Pattern) (text : Text) : Text := pattern.subFrom 0 [] text

/-- A character as a case-blind pattern compares it: the letters that fold to ASCII are the long s,
the Kelvin sign, and the dotted and the dotless i. -/
def foldCase (ch : Char) : Char :=
  if ch = 'ſ' then 's' else if ch = '\u212a' then 'k' else if ch = 'İ' ∨ ch = 'ı' then 'i'
  else ch.toLower

def startsFolded (word rest : Text) : Bool := (rest.take word.length).map foldCase = word

/-- `[A-Za-z0-9._~+/=-]`, case-blind. -/
def isTokenChar (ch : Char) : Bool := (foldCase ch).isAlphanum || ch ∈ "._~+/=-".toList

/-- `[A-Za-z0-9_-]`. -/
def isKeyChar (ch : Char) : Bool := ch.isAlphanum || ch = '_' || ch = '-'

/-- `[0-9A-Z]`. -/
def isAccessKeyChar (ch : Char) : Bool := ch.isDigit || ch.isUpper

namespace RegexTables

variable (t : RegexTables)

def isWord (ch : Char) : Bool := t.isalnum ch || ch = '_'

/-- `\b`. -/
def boundary (before rest : Text) : Bool := before.head?.any t.isWord != rest.head?.any t.isWord

/-- `\bBearer\s+[A-Za-z0-9._~+/=-]{8,}`. -/
def bearerToken : Pattern := fun before rest =>
  if startsFolded "bearer".toList rest then
    let blanks := ((rest.drop 6).takeWhile t.isspace).length
    let token := ((rest.drop (6 + blanks)).takeWhile isTokenChar).length
    if t.boundary before rest ∧ 1 ≤ blanks ∧ 8 ≤ token then some (6 + blanks + token) else none
  else none

/-- The labels of a credential, with each of `_`, `-` and nothing where a separator may stand. -/
def labels : List Text :=
  [("api", "key"), ("access", "token"), ("auth", "token"), ("secret", "key"),
    ("client", "secret")].flatMap
      (fun (first, last) => ["_", "-", ""].map fun separator => (first ++ separator ++ last).toList)
    ++ ["password".toList, "authorization".toList]

/-- A quote of the text, or one that JSON escaped. -/
def quotes : List Text := ["\\\"".toList, "\"".toList, "'".toList]

/-- A label between word boundaries. -/
def label : Pattern := fun before rest =>
  (labels.find? fun word => startsFolded word rest
    && (t.boundary before rest
      && t.boundary ((rest.take word.length).reverse ++ before) (rest.drop word.length))).map
      List.length

/-- A label between two of one quote, or a bare one. -/
def quotedLabel : Pattern := fun before rest =>
  match quotes.findSome? fun quote =>
    if quote.isPrefixOf rest then
      (t.label (quote.reverse ++ before) (rest.drop quote.length)).bind fun word =>
        if quote.isPrefixOf (rest.drop (quote.length + word)) then
          some (2 * quote.length + word) else none
    else none with
  | some taken => some taken
  | none => t.label before rest

/-- A value of six characters or more, between two of one quote or bare. -/
def assignedValue (rest : Text) : Option ℕ :=
  match quotes.findSome? fun quote =>
    if quote.isPrefixOf rest then
      let token := ((rest.drop quote.length).takeWhile isTokenChar).length
      if 6 ≤ token ∧ quote.isPrefixOf (rest.drop (quote.length + token)) then
        some (2 * quote.length + token) else none
    else none with
  | some taken => some taken
  | none =>
      let token := (rest.takeWhile isTokenChar).length
      if 6 ≤ token then some token else none

/-- A labelled credential: the label, `\s*[:=]\s*`, the value. -/
def assignment : Pattern := fun before rest =>
  (t.quotedLabel before rest).bind fun word =>
    let blanks := ((rest.drop word).takeWhile t.isspace).length
    let sign := rest.drop (word + blanks)
    if sign.head? = some ':' ∨ sign.head? = some '=' then
      let after := ((sign.drop 1).takeWhile t.isspace).length
      (assignedValue (sign.drop (1 + after))).map fun value => word + blanks + 1 + after + value
    else none

/-- `\bsk-[A-Za-z0-9_-]{10,}\b`: the longest that ends at a boundary. -/
def bareKey : Pattern := fun before rest =>
  if "sk-".toList.isPrefixOf rest then
    let token := ((rest.drop 3).takeWhile isKeyChar).length
    if t.boundary before rest then
      ((List.range (token + 1)).reverse.find? fun taken =>
        10 ≤ taken ∧ t.boundary ((rest.take (3 + taken)).reverse ++ before)
          (rest.drop (3 + taken)) = true).map (3 + ·)
    else none
  else none

/-- `\bAKIA[0-9A-Z]{16}\b`. -/
def accessKey : Pattern := fun before rest =>
  if "AKIA".toList.isPrefixOf rest then
    let token := (rest.drop 4).take 16
    if t.boundary before rest ∧ token.length = 16 ∧ token.all isAccessKeyChar ∧
      t.boundary ((rest.take 20).reverse ++ before) (rest.drop 20) = true then some 20 else none
  else none

/-- The query of the sign-in callback, up to a blank, a quote or a backslash. -/
def callbackQuery : Pattern := fun before rest =>
  if "/v1/auth/google/callback?".toList.reverse.isPrefixOf before then
    some (rest.takeWhile fun ch => !(t.isspace ch || ch = '"' || ch = '\\')).length
  else none

def redactionPatterns : List Pattern := [t.bearerToken, t.assignment, t.bareKey, t.accessKey,
  t.callbackQuery]

def redactSecrets (text : Text) : Text :=
  t.redactionPatterns.foldl (fun text pattern => pattern.sub text) text

end RegexTables

def asciiRegexTables : RegexTables := ⟨Char.isAlphanum, Char.isWhitespace⟩

example :
    asciiRegexTables.redactSecrets "login Bearer abcdefgh, 'password': 'hunter2' sk-0123456789-".toList
    = "login [REDACTED], [REDACTED] [REDACTED]-".toList := by decide +kernel

end Quorum
