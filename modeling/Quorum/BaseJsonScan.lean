import Quorum.BaseJsonValue

/-! `json.loads` as a machine that takes a text one code point at a time: the containers that are
open, innermost first, and what may come next. A container is read off the front of a text whatever
follows it. -/

namespace Quorum

abbrev Points := List CodePoint

namespace JsonScan

inductive ScanError
  | valueError
  | recursionError
deriving DecidableEq

/-- What the interpreter sets: how many containers may be open, how many digits an integer may have,
and the `str` of the float that a numeral denotes. -/
structure Limits where
  maxDepth : ℕ
  maxDigits : ℕ
  floatText : List Char → List Char

inductive Frame
  | array (items : List JsonValue)
  | object (fields : List (Points × JsonValue)) (key : Points)

/-- What is read so far of a string; `high` is a high surrogate that the escape just before stood
for. -/
structure StringState where
  isKey : Bool
  points : Points
  high : Option (Fin 1024)

inductive Mode
  | value
  | firstItem
  | firstKey
  | nextKey
  | colon
  | after
  | string (state : StringState)
  | escape (state : StringState)
  | hex (state : StringState) (digits : List Char)
  | atom (chars : List Char)

structure State where
  stack : List Frame
  mode : Mode

def State.start : State := { stack := [], mode := .value }

/-- What one code point leads to; an atom at the root ends before it. -/
inductive Turn
  | next (state : State)
  | done (value : JsonValue)
  | doneBefore (value : JsonValue)
  | fail (error : ScanError)

def isWs : CodePoint → Bool
  | .inl ch => ch ∈ [' ', '\t', '\n', '\r']
  | .inr _ => false

/-- A control character, which a string cannot have. -/
def isControl : CodePoint → Bool
  | .inl ch => ch.toNat < 32
  | .inr _ => false

/-- A character that a literal name or a numeral can have. -/
def isAtomChar (ch : Char) : Bool := ch.isAlphanum || ch == '+' || ch == '-' || ch == '.'

/-! ### Atoms -/

/-- The digits at the head of a text, when there are some, and the rest. -/
def takeDigits (text : List Char) : Option (List Char × List Char) :=
  let digits := text.takeWhile Char.isDigit
  if digits = [] then none else some (digits, text.drop digits.length)

/-- The text after an optional fraction. -/
def afterFraction (text : List Char) : Option (List Char) :=
  match text with
  | '.' :: rest => (takeDigits rest).map Prod.snd
  | _ => some text

/-- The text after an optional exponent. -/
def afterExponent (text : List Char) : Option (List Char) :=
  match text with
  | 'e' :: rest | 'E' :: rest =>
      match rest with
      | '+' :: digits | '-' :: digits => (takeDigits digits).map Prod.snd
      | _ => (takeDigits rest).map Prod.snd
  | _ => some text

/-- The value of a numeral. -/
def numeral (limits : Limits) (chars : List Char) : Option JsonValue :=
  let negative := chars.head? = some '-'
  (takeDigits (if negative then chars.tail else chars)).bind fun (digits, rest) =>
    if digits.head? = some '0' ∧ digits.length ≠ 1 then none
    else if rest = [] then
      if digits.length ≤ limits.maxDigits then
        let magnitude : ℕ := Nat.ofDigitChars 10 digits 0
        some (.int (if negative then -magnitude else magnitude))
      else none
    else if (afterFraction rest).bind afterExponent = some [] then
      some (.float (limits.floatText chars))
    else none

def atomValue (limits : Limits) (chars : List Char) : Option JsonValue :=
  if chars = "null".toList then some .null
  else if chars = "true".toList then some (.bool true)
  else if chars = "false".toList then some (.bool false)
  else if chars = "NaN".toList then some (.float "nan".toList)
  else if chars = "Infinity".toList then some (.float "inf".toList)
  else if chars = "-Infinity".toList then some (.float "-inf".toList)
  else numeral limits chars

/-! ### Strings -/

/-- The code points so far, the pending high surrogate among them. -/
def StringState.flush (state : StringState) : Points :=
  match state.high with
  | none => state.points
  | some high => state.points ++ [.inr ⟨high, by omega⟩]

def StringState.push (state : StringState) (point : CodePoint) : StringState :=
  { state with points := state.flush ++ [point], high := none }

/-- One UTF-16 unit of an escape; a high and a low surrogate in a row are one character. -/
def StringState.pushUnit (state : StringState) (unit : ℕ) : StringState :=
  if h : 0xD800 ≤ unit ∧ unit < 0xDC00 then
    { state with points := state.flush, high := some ⟨unit - 0xD800, by omega⟩ }
  else if h : 0xDC00 ≤ unit ∧ unit < 0xE000 then
    match state.high with
    | some high =>
        { state with
          points := state.points ++ [.inl (Char.ofNat (0x10000 + high * 1024 + (unit - 0xDC00)))]
          high := none }
    | none => state.push (.inr ⟨unit - 0xD800, by omega⟩)
  else state.push (.inl (Char.ofNat unit))

def hexValue (ch : Char) : Option ℕ :=
  if ch.isDigit then some (ch.toNat - 48)
  else if 'a' ≤ ch ∧ ch ≤ 'f' then some (ch.toNat - 87)
  else if 'A' ≤ ch ∧ ch ≤ 'F' then some (ch.toNat - 55)
  else none

/-- What a backslash before the character stands for. -/
def escapeOf (ch : Char) : Option Char :=
  [('"', '"'), ('\\', '\\'), ('/', '/'), ('b', '\x08'), ('f', '\x0c'), ('n', '\n'), ('r', '\r'),
    ('t', '\t')].lookup ch

/-! ### The machine -/

section

variable (limits : Limits)

/-- `fields[key] = value` of a mapping that keeps its order. -/
def setField (fields : List (Points × JsonValue)) (key : Points) (value : JsonValue) :
    List (Points × JsonValue) :=
  if fields.any fun field => field.1 = key then
    fields.map fun field => if field.1 = key then (key, value) else field
  else fields ++ [(key, value)]

/-- The containers once a value in the innermost has ended. -/
def Frame.add (value : JsonValue) : Frame → Frame
  | .array items => .array (items ++ [value])
  | .object fields key => .object (setField fields key value) key

/-- What comes after a comma, the bracket that ends the container, and the container's value
then. -/
def Frame.afterComma : Frame → Mode
  | .array _ => .value
  | .object _ _ => .nextKey

def Frame.closer : Frame → Char
  | .array _ => ']'
  | .object _ _ => '}'

def Frame.closed : Frame → JsonValue
  | .array items => .arr items
  | .object fields _ => .obj fields

def complete (stack : List Frame) (value : JsonValue) : Turn :=
  match stack with
  | [] => .done value
  | frame :: rest => .next { stack := frame.add value :: rest, mode := .after }

def enter (stack : List Frame) (frame : Frame) (mode : Mode) : Turn :=
  if stack.length < limits.maxDepth then .next { stack := frame :: stack, mode }
  else .fail .recursionError

def stepValue (stack : List Frame) (mode : Mode) (point : CodePoint) : Turn :=
  if isWs point then .next { stack, mode }
  else if point = .inl '"' then
    .next { stack, mode := .string { isKey := false, points := [], high := none } }
  else if point = .inl '{' then enter limits stack (.object [] []) .firstKey
  else if point = .inl '[' then enter limits stack (.array []) .firstItem
  else
    match point with
    | .inl ch => if isAtomChar ch then .next { stack, mode := .atom [ch] } else .fail .valueError
    | .inr _ => .fail .valueError

def stepKey (stack : List Frame) (mode : Mode) (point : CodePoint) : Turn :=
  if isWs point then .next { stack, mode }
  else if point = .inl '"' then
    .next { stack, mode := .string { isKey := true, points := [], high := none } }
  else .fail .valueError

/-- After a value in the innermost container: a comma, or the bracket that closes it. -/
def stepAfter (stack : List Frame) (point : CodePoint) : Turn :=
  match stack with
  | [] => .fail .valueError
  | frame :: rest =>
      if isWs point then .next { stack, mode := .after }
      else if point = .inl ',' then .next { stack, mode := frame.afterComma }
      else if point = .inl frame.closer then complete rest frame.closed
      else .fail .valueError

/-- The end of a string: a key waits for its colon. -/
def endString (stack : List Frame) (state : StringState) : Turn :=
  if state.isKey then
    match stack with
    | .object fields _ :: rest =>
        .next { stack := .object fields state.flush :: rest, mode := .colon }
    | _ => .fail .valueError
  else complete stack (.str state.flush)

def stepString (stack : List Frame) (state : StringState) (point : CodePoint) : Turn :=
  if point = .inl '"' then endString stack state
  else if point = .inl '\\' then .next { stack, mode := .escape state }
  else if isControl point then .fail .valueError
  else .next { stack, mode := .string (state.push point) }

def stepEscape (stack : List Frame) (state : StringState) (point : CodePoint) : Turn :=
  match point with
  | .inr _ => .fail .valueError
  | .inl ch =>
      if ch = 'u' then .next { stack, mode := .hex state [] }
      else
        match escapeOf ch with
        | some meant => .next { stack, mode := .string (state.push (.inl meant)) }
        | none => .fail .valueError

def stepHex (stack : List Frame) (state : StringState) (digits : List Char)
    (point : CodePoint) : Turn :=
  match point with
  | .inr _ => .fail .valueError
  | .inl ch =>
      match (digits ++ [ch]).mapM hexValue with
      | none => .fail .valueError
      | some values =>
          if values.length < 4 then .next { stack, mode := .hex state (digits ++ [ch]) }
          else .next { stack, mode := .string (state.pushUnit (values.foldl (fun unit value => 16 * unit + value) 0)) }

/-- An atom ends before the first character that it cannot have. -/
def stepAtom (stack : List Frame) (chars : List Char) (point : CodePoint) : Turn :=
  match point with
  | .inl ch => if isAtomChar ch then .next { stack, mode := .atom (chars ++ [ch]) } else finish
  | .inr _ => finish
where
  finish : Turn :=
    match atomValue limits chars with
    | none => .fail .valueError
    | some value =>
        match stack with
        | [] => .doneBefore value
        | frame :: rest => stepAfter (frame.add value :: rest) point

def step (state : State) (point : CodePoint) : Turn :=
  match state.mode with
  | .value => stepValue limits state.stack .value point
  | .firstItem =>
      if point = .inl ']' then
        match state.stack with
        | _ :: rest => complete rest (.arr [])
        | [] => .fail .valueError
      else stepValue limits state.stack .firstItem point
  | .firstKey =>
      if point = .inl '}' then
        match state.stack with
        | _ :: rest => complete rest (.obj [])
        | [] => .fail .valueError
      else stepKey state.stack .firstKey point
  | .nextKey => stepKey state.stack .nextKey point
  | .colon =>
      if isWs point then .next state
      else if point = .inl ':' then .next { state with mode := .value }
      else .fail .valueError
  | .after => stepAfter state.stack point
  | .string string => stepString state.stack string point
  | .escape string => stepEscape state.stack string point
  | .hex string digits => stepHex state.stack string digits point
  | .atom chars => stepAtom limits state.stack chars point

/-- At the end of the text only an atom at the root is whole. -/
def State.finish (state : State) : Except ScanError (JsonValue × Points) :=
  match state.stack, state.mode with
  | [], .atom chars =>
      match atomValue limits chars with
      | some value => .ok (value, [])
      | none => .error .valueError
  | _, _ => .error .valueError

/-- `scan_once`: the value and what follows it. -/
def scan (state : State) : Points → Except ScanError (JsonValue × Points)
  | [] => state.finish limits
  | point :: text =>
      match step limits state point with
      | .next state => scan state text
      | .done value => .ok (value, text)
      | .doneBefore value => .ok (value, point :: text)
      | .fail error => .error error

def loads (text : Points) : Except ScanError JsonValue :=
  if text.head? = some (.inl '\uFEFF') then .error .valueError
  else
    match scan limits .start text with
    | .error error => .error error
    | .ok (value, rest) => if rest.all isWs then .ok value else .error .valueError

/-! ### A container is read whatever follows it -/

variable {limits} {state next : State} {stack : List Frame} {point : CodePoint} {value : JsonValue}

/-- A turn within an open container: it stays within one, or it is the bracket that closes the
last. -/
def Within (point : CodePoint) : Turn → Prop
  | .next state => state.stack ≠ []
  | .done _ => point = .inl ']' ∨ point = .inl '}'
  | .doneBefore _ => False
  | .fail _ => True

theorem within_complete {rest : List Frame} (hpoint : point = .inl ']' ∨ point = .inl '}') :
    Within point (complete rest value) := by
  cases rest with
  | nil => exact hpoint
  | cons frame rest => exact List.cons_ne_nil _ _

theorem within_complete_cons {frame : Frame} {rest : List Frame} :
    Within point (complete (frame :: rest) value) :=
  List.cons_ne_nil _ _

theorem within_enter {frame : Frame} {mode : Mode} :
    Within point (enter limits stack frame mode) := by
  rw [enter]
  split_ifs
  · exact List.cons_ne_nil _ _
  · trivial

theorem within_stepValue (hstack : stack ≠ []) (mode : Mode) :
    Within point (stepValue limits stack mode point) := by
  unfold stepValue
  split_ifs
  · exact hstack
  · exact hstack
  · exact within_enter
  · exact within_enter
  · split
    · split_ifs
      · exact hstack
      · trivial
    · trivial

theorem within_stepKey (hstack : stack ≠ []) (mode : Mode) :
    Within point (stepKey stack mode point) := by
  rw [stepKey]
  split_ifs
  · exact hstack
  · exact hstack
  · trivial

theorem closer_cases (frame : Frame) (hpoint : point = .inl frame.closer) :
    point = .inl ']' ∨ point = .inl '}' := by
  cases frame with
  | array items => exact .inl hpoint
  | object fields key => exact .inr hpoint

theorem within_stepAfter : Within point (stepAfter stack point) := by
  unfold stepAfter
  split
  · trivial
  · next frame rest =>
    split_ifs with hspace hcomma hclose
    · exact List.cons_ne_nil _ _
    · exact List.cons_ne_nil _ _
    · exact within_complete (closer_cases frame hclose)
    · trivial

theorem within_endString (hstack : stack ≠ []) (string : StringState) :
    Within point (endString stack string) := by
  obtain ⟨frame, rest, rfl⟩ := List.exists_cons_of_ne_nil hstack
  unfold endString
  split_ifs
  · split
    · exact List.cons_ne_nil _ _
    · trivial
  · exact within_complete_cons

theorem within_stepString (hstack : stack ≠ []) (string : StringState) :
    Within point (stepString stack string point) := by
  rw [stepString]
  split_ifs
  · exact within_endString hstack string
  · exact hstack
  · trivial
  · exact hstack

theorem within_stepEscape (hstack : stack ≠ []) (string : StringState) :
    Within point (stepEscape stack string point) := by
  unfold stepEscape
  split
  · trivial
  · split_ifs
    · exact hstack
    · split
      · exact hstack
      · trivial

theorem within_stepHex (hstack : stack ≠ []) (string : StringState) (digits : List Char) :
    Within point (stepHex stack string digits point) := by
  unfold stepHex
  split
  · trivial
  · split
    · trivial
    · split_ifs
      · exact hstack
      · exact hstack

theorem within_stepAtom (hstack : stack ≠ []) (chars : List Char) :
    Within point (stepAtom limits stack chars point) := by
  have hfinish : Within point (stepAtom.finish limits stack chars point) := by
    obtain ⟨frame, rest, rfl⟩ := List.exists_cons_of_ne_nil hstack
    unfold stepAtom.finish
    split
    · trivial
    · exact within_stepAfter
  unfold stepAtom
  split
  · split_ifs
    · exact hstack
    · exact hfinish
  · exact hfinish

/-- What one turn within an open container can do. -/
theorem within_step (hstack : state.stack ≠ []) (point : CodePoint) :
    Within point (step limits state point) := by
  obtain ⟨stack, mode⟩ := state
  cases mode with
  | value => exact within_stepValue hstack .value
  | firstItem =>
      obtain ⟨frame, rest, rfl⟩ := List.exists_cons_of_ne_nil hstack
      change Within point (if point = .inl ']' then complete rest (.arr []) else _)
      split_ifs with hclose
      · exact within_complete (.inl hclose)
      · exact within_stepValue hstack .firstItem
  | firstKey =>
      obtain ⟨frame, rest, rfl⟩ := List.exists_cons_of_ne_nil hstack
      change Within point (if point = .inl '}' then complete rest (.obj []) else _)
      split_ifs with hclose
      · exact within_complete (.inr hclose)
      · exact within_stepKey hstack .firstKey
  | nextKey => exact within_stepKey hstack .nextKey
  | colon =>
      change Within point (if isWs point then _ else if point = .inl ':' then _ else _)
      split_ifs
      · exact hstack
      · exact hstack
      · trivial
  | after => exact within_stepAfter
  | string string => exact within_stepString hstack string
  | escape string => exact within_stepEscape hstack string
  | hex string digits => exact within_stepHex hstack string digits
  | atom chars => exact within_stepAtom hstack chars

theorem finish_within (hstack : state.stack ≠ []) : state.finish limits = .error .valueError := by
  obtain ⟨stack, mode⟩ := state
  cases stack with
  | nil => exact absurd rfl hstack
  | cons frame rest => rfl

/-- An open container that ends does so at the same bracket whatever follows. -/
theorem scan_append (hstack : state.stack ≠ []) {text rest : Points}
    (h : scan limits state text = .ok (value, rest)) (more : Points) :
    scan limits state (text ++ more) = .ok (value, rest ++ more) := by
  induction text generalizing state with
  | nil =>
      rw [scan, finish_within hstack] at h
      exact nomatch h
  | cons point text ih =>
      have hwithin : Within point (step limits state point) := within_step hstack point
      rw [scan] at h
      rw [List.cons_append, scan]
      cases hturn : step limits state point with
      | next next =>
          rw [hturn] at h hwithin
          exact ih hwithin h
      | done found =>
          rw [hturn] at h
          obtain ⟨rfl, rfl⟩ := Prod.mk.inj (Except.ok.inj h)
          rfl
      | doneBefore found =>
          rw [hturn] at hwithin
          exact hwithin.elim
      | fail error =>
          rw [hturn] at h
          exact nomatch h

/-- It ends with a closing bracket. -/
theorem scan_closed (hstack : state.stack ≠ []) {text rest : Points}
    (h : scan limits state text = .ok (value, rest)) :
    ∃ body close, text = body ++ close :: rest ∧ (close = .inl ']' ∨ close = .inl '}') := by
  induction text generalizing state with
  | nil =>
      rw [scan, finish_within hstack] at h
      exact nomatch h
  | cons point text ih =>
      have hwithin : Within point (step limits state point) := within_step hstack point
      rw [scan] at h
      cases hturn : step limits state point with
      | next next =>
          rw [hturn] at h hwithin
          obtain ⟨body, close, htext, hclose⟩ := ih hwithin h
          exact ⟨point :: body, close, by rw [htext, List.cons_append], hclose⟩
      | done found =>
          rw [hturn] at h hwithin
          obtain ⟨rfl, rfl⟩ := Prod.mk.inj (Except.ok.inj h)
          exact ⟨[], point, rfl, hwithin⟩
      | doneBefore found =>
          rw [hturn] at hwithin
          exact hwithin.elim
      | fail error =>
          rw [hturn] at h
          exact nomatch h

end

end JsonScan

end Quorum
