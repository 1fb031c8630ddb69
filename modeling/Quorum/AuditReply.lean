import Quorum.BaseJsonScan
import Mathlib.Data.List.DropRight

/-! Reading the audit model's reply (`feedback_audit`): the JSON envelope out of its fence and the
prose around it, and the findings of the envelope. -/

namespace Quorum

open JsonScan

/-- What the audit takes of the interpreter: its limits, its spaces, `str` of what is no string,
`float` of a string and of an integer that has one, and `:.2f` of a float. A float is given by its
`str`. -/
structure AuditTables extends Limits where
  isspace : Char → Bool
  strOf : JsonValue → Points
  parseFloat : Points → Option (List Char)
  intFloat : ℤ → List Char
  fixed : List Char → List Char
  blanks : ∀ ch ∈ [' ', '\t', '\n', '\r'], isspace ch = true
  marks : ∀ ch ∈ ['{', '}', ']', '\x60'], isspace ch = false

structure Finding where
  category : Points
  severity : Points
  title : Points
  evidence : Points
  recommendation : Points
  proposedDiff : Points
  confidence : List Char

structure AuditResponse where
  findings : List Finding
  negativeFindings : List Points
  rawResponse : Points
  usedModel : Points

inductive AuditError
  | valueError
  | typeError
  | attributeError
  | overflowError
  | recursionError
deriving DecidableEq

def fence : Points := ofText "```".toList

/-- The text from its second line on, when it has one. -/
def afterNewline (text : Points) : Points :=
  match text.dropWhile (· ≠ .inl '\n') with
  | [] => text
  | _ :: rest => rest

def dropFence (text : Points) : Points :=
  if fence <:+ text then text.take (text.length - 3) else text

/-- How far the text goes when its braces, strings among it, first balance. -/
def braceEnd : ℕ → Points → Option ℕ
  | _, [] => none
  | depth, point :: rest =>
      if point = .inl '{' then (braceEnd (depth + 1) rest).map (· + 1)
      else if point = .inl '}' then
        if depth = 1 then some 1 else (braceEnd (depth - 1) rest).map (· + 1)
      else (braceEnd depth rest).map (· + 1)

def trimProse (text : Points) : Points :=
  if text.head? = some (.inl '{') then
    match braceEnd 0 text with
    | some stop => text.take stop
    | none => text
  else text

/-- `bool(value)`. -/
def truthy : JsonValue → Bool
  | .null => false
  | .bool value => value
  | .int value => value ≠ 0
  | .float text => text ≠ "0.0".toList && text ≠ "-0.0".toList
  | .str value => !value.isEmpty
  | .arr items => !items.isEmpty
  | .obj fields => !fields.isEmpty

/-- The items of `value or []`, when these can be iterated over. -/
def iterated (value : JsonValue) : Except AuditError (List JsonValue) :=
  if truthy value then
    match value with
    | .arr items => .ok items
    | .obj fields => .ok (fields.map fun field => .str field.1)
    | .str points => .ok (points.map fun point => .str [point])
    | _ => .error .typeError
  else .ok []

/-- The least magnitude of an integer that has no float. -/
def floatBound : ℕ := 2 ^ 1024 - 2 ^ 970

/-- How an object stands in a reply: behind spaces, or as well in a fence. -/
inductive AuditLayout
  | plain (lead : Points)
  | fenced (lead info inner : Points)

/-- The reply with prose after the object; in a fence its end is a part of that. -/
def AuditLayout.reply (object prose : Points) : AuditLayout → Points
  | .plain lead => lead ++ (object ++ prose)
  | .fenced lead info inner =>
      lead ++ (fence ++ (info ++ .inl '\n' :: (inner ++ (object ++ prose))))

namespace AuditTables

variable (p : AuditTables)

def isBlank : CodePoint → Bool
  | .inl ch => p.isspace ch
  | .inr _ => false

def strip (text : Points) : Points := (text.dropWhile p.isBlank).rdropWhile p.isBlank

def stripFence (text : Points) : Points :=
  if fence <+: text then p.strip (dropFence (afterNewline text)) else text

/-- What of the reply is given to `json.loads`. -/
def auditedText (rawText : Points) : Points := trimProse (p.stripFence (p.strip rawText))

/-- `str(value)`. -/
def str : JsonValue → Points
  | .str points => points
  | value => p.strOf value

/-- `str(item.get(key) or default)`. -/
def textField (fields : List (Points × JsonValue)) (key : String) (default : String) : Points :=
  if truthy (fieldOf fields key) then p.str (fieldOf fields key) else ofText default.toList

/-- `float(item.get("confidence") or 0.0)`; `none` is an error that the loop passes over. -/
def confidenceOf (fields : List (Points × JsonValue)) : Except AuditError (Option (List Char)) :=
  if truthy (fieldOf fields "confidence") then
    match fieldOf fields "confidence" with
    | .bool _ => .ok (some "1.0".toList)
    | .int value =>
        if value.natAbs < floatBound then .ok (some (p.intFloat value)) else .error .overflowError
    | .float text => .ok (some text)
    | .str points => .ok (p.parseFloat points)
    | _ => .ok none
  else .ok (some "0.0".toList)

/-- The finding that an item is, or `none` when the item is passed over. -/
def findingOf : JsonValue → Except AuditError (Option Finding)
  | .obj fields =>
      (p.confidenceOf fields).map fun confidence? =>
        confidence?.map fun confidence =>
          { category := p.textField fields "category" ""
            severity := p.textField fields "severity" "low"
            title := p.textField fields "title" ""
            evidence := p.textField fields "evidence" ""
            recommendation := p.textField fields "recommendation" ""
            proposedDiff := p.textField fields "proposed_diff" ""
            confidence }
  | _ => .ok none

/-- The loop over the items of `findings`. -/
def findingsOf : List JsonValue → Except AuditError (List Finding)
  | [] => .ok []
  | item :: items =>
      match p.findingOf item with
      | .error error => .error error
      | .ok finding? => (findingsOf items).map fun findings => finding?.toList ++ findings

def readEnvelope (rawText : Points) (fields : List (Points × JsonValue)) :
    Except AuditError AuditResponse := do
  let findingsRaw ← iterated (fieldOf fields "findings")
  let findings ← p.findingsOf findingsRaw
  let negativesRaw ← iterated (fieldOf fields "negative_findings")
  .ok { findings, negativeFindings := negativesRaw.filterMap JsonValue.str?, rawResponse := rawText, usedModel := [] }

def parseAuditResponse (rawText : Points) : Except AuditError AuditResponse :=
  match loads p.toLimits (p.auditedText rawText) with
  | .error .valueError => .error .valueError
  | .error .recursionError => .error .recursionError
  | .ok (.obj fields) => p.readEnvelope rawText fields
  | .ok _ => .error .attributeError

/-! ### Where the envelope can be read -/

/-- The value can be iterated over, or is passed over for an empty list. -/
def Iterable : JsonValue → Prop
  | .bool value => value = false
  | .int value => value = 0
  | .float text => text = "0.0".toList ∨ text = "-0.0".toList
  | _ => True

/-- The item's confidence is an integer without a float. -/
def ConfidenceOverflows : JsonValue → Prop
  | .obj fields => ∃ value, fieldOf fields "confidence" = .int value ∧ floatBound ≤ value.natAbs
  | _ => False

/-- The envelope's findings and negative findings can be read. -/
structure Readable (fields : List (Points × JsonValue)) : Prop where
  findings : Iterable (fieldOf fields "findings")
  negatives : Iterable (fieldOf fields "negative_findings")
  confidences : ∀ items, fieldOf fields "findings" = .arr items →
    ∀ item ∈ items, ¬ ConfidenceOverflows item

/-- The items of a value that can be iterated over. -/
def itemsOf (value : JsonValue) : List JsonValue :=
  match iterated value with
  | .ok items => items
  | .error _ => []

/-- The finding of an item, where there is one. -/
def ownFinding (item : JsonValue) : Option Finding :=
  match p.findingOf item with
  | .ok finding? => finding?
  | .error _ => none

/-- The findings and negative findings of an envelope. -/
def envelope (rawText : Points) (fields : List (Points × JsonValue)) : AuditResponse :=
  { findings := (itemsOf (fieldOf fields "findings")).filterMap p.ownFinding
    negativeFindings := (itemsOf (fieldOf fields "negative_findings")).filterMap JsonValue.str?
    rawResponse := rawText, usedModel := [] }

variable {p} {fields : List (Points × JsonValue)} {value item : JsonValue}

theorem iterated_eq (value : JsonValue) :
    (Iterable value ∧ iterated value = .ok (itemsOf value))
    ∨ (¬ Iterable value ∧ iterated value = .error .typeError) := by
  have hok : ∀ items, iterated value = .ok items → iterated value = .ok (itemsOf value) := by
    intro items h
    rw [itemsOf, h]
  cases value with
  | null => exact .inl ⟨trivial, hok [] rfl⟩
  | bool value =>
      cases value with
      | false => exact .inl ⟨rfl, hok [] rfl⟩
      | true => exact .inr ⟨Bool.noConfusion, rfl⟩
  | int value =>
      by_cases hzero : value = 0
      · exact .inl ⟨hzero, hok [] (by simp [iterated, truthy, hzero])⟩
      · exact .inr ⟨hzero, by simp [iterated, truthy, hzero]⟩
  | float text =>
      by_cases hzero : text = "0.0".toList ∨ text = "-0.0".toList
      · refine .inl ⟨hzero, hok [] ?_⟩
        rcases hzero with rfl | rfl
        · rfl
        · rfl
      · refine .inr ⟨hzero, ?_⟩
        obtain ⟨hpos, hneg⟩ := not_or.mp hzero
        have htruthy : truthy (.float text) = true := by
          simp only [truthy, hpos, hneg, ne_eq, not_false_eq_true, decide_true, Bool.and_true]
        unfold iterated
        rw [if_pos htruthy]
  | str points =>
      cases points with
      | nil => exact .inl ⟨trivial, hok [] rfl⟩
      | cons point points => exact .inl ⟨trivial, hok _ rfl⟩
  | arr items =>
      cases items with
      | nil => exact .inl ⟨trivial, hok [] rfl⟩
      | cons item items => exact .inl ⟨trivial, hok _ rfl⟩
  | obj fields =>
      cases fields with
      | nil => exact .inl ⟨trivial, hok [] rfl⟩
      | cons field fields => exact .inl ⟨trivial, hok _ rfl⟩

theorem itemsOf_arr (items : List JsonValue) : itemsOf (.arr items) = items := by
  cases items with
  | nil => rfl
  | cons item items => rfl

theorem floatBound_pos : 0 < floatBound := by
  have hlt : (2 : ℕ) ^ 970 < 2 ^ 1024 := pow_lt_pow_right₀ one_lt_two (by norm_num)
  rw [floatBound]
  omega

theorem confidenceOf_eq (fields : List (Points × JsonValue)) :
    (¬ ConfidenceOverflows (.obj fields) ∧ ∃ confidence?, p.confidenceOf fields = .ok confidence?)
      ∨ (ConfidenceOverflows (.obj fields) ∧ p.confidenceOf fields = .error .overflowError) := by
  have hpass : (∀ number, fieldOf fields "confidence" ≠ .int number) →
      ¬ ConfidenceOverflows (.obj fields) := fun hint ⟨number, hnumber, _⟩ => hint number hnumber
  rw [confidenceOf]
  cases hvalue : fieldOf fields "confidence" with
  | null => exact .inl ⟨hpass (by simp [hvalue]), _, rfl⟩
  | bool value =>
      refine .inl ⟨hpass (by simp [hvalue]), ?_⟩
      split_ifs
      · exact ⟨_, rfl⟩
      · exact ⟨_, rfl⟩
  | float text =>
      refine .inl ⟨hpass (by simp [hvalue]), ?_⟩
      split_ifs
      · exact ⟨_, rfl⟩
      · exact ⟨_, rfl⟩
  | str points =>
      refine .inl ⟨hpass (by simp [hvalue]), ?_⟩
      split_ifs
      · exact ⟨_, rfl⟩
      · exact ⟨_, rfl⟩
  | arr items =>
      refine .inl ⟨hpass (by simp [hvalue]), ?_⟩
      split_ifs
      · exact ⟨_, rfl⟩
      · exact ⟨_, rfl⟩
  | obj inner =>
      refine .inl ⟨hpass (by simp [hvalue]), ?_⟩
      split_ifs
      · exact ⟨_, rfl⟩
      · exact ⟨_, rfl⟩
  | int number =>
      by_cases hbound : number.natAbs < floatBound
      · refine .inl ⟨fun ⟨other, hother, hle⟩ => ?_, ?_⟩
        · obtain rfl : number = other := JsonValue.int.inj (hvalue.symm.trans hother)
          exact hle.not_gt hbound
        · dsimp only
          split_ifs
          · exact ⟨_, rfl⟩
          · exact ⟨_, rfl⟩
      · refine .inr ⟨⟨number, hvalue, not_lt.mp hbound⟩, ?_⟩
        have hnonzero : number ≠ 0 := by
          rintro rfl
          exact hbound floatBound_pos
        have htruthy : truthy (.int number) = true := decide_eq_true hnonzero
        dsimp only
        rw [if_pos htruthy, if_neg hbound]

theorem findingOf_eq (item : JsonValue) :
    (¬ ConfidenceOverflows item ∧ p.findingOf item = .ok (p.ownFinding item))
      ∨ (ConfidenceOverflows item ∧ p.findingOf item = .error .overflowError) := by
  have hok : ∀ finding?, p.findingOf item = .ok finding? →
      p.findingOf item = .ok (p.ownFinding item) := by
    intro finding? h
    rw [ownFinding, h]
  cases item with
  | obj fields =>
      rcases confidenceOf_eq (p := p) fields with ⟨hpass, confidence?, hconfidence⟩ |
        ⟨hover, hconfidence⟩
      · exact .inl ⟨hpass, hok _ (by rw [findingOf, hconfidence]; rfl)⟩
      · exact .inr ⟨hover, by rw [findingOf, hconfidence]; rfl⟩
  | null => exact .inl ⟨id, hok none rfl⟩
  | bool value => exact .inl ⟨id, hok none rfl⟩
  | int value => exact .inl ⟨id, hok none rfl⟩
  | float text => exact .inl ⟨id, hok none rfl⟩
  | str points => exact .inl ⟨id, hok none rfl⟩
  | arr items => exact .inl ⟨id, hok none rfl⟩

theorem findingsOf_eq (items : List JsonValue) :
    ((∀ item ∈ items, ¬ ConfidenceOverflows item)
      ∧ p.findingsOf items = .ok (items.filterMap p.ownFinding))
      ∨ ((∃ item ∈ items, ConfidenceOverflows item)
          ∧ p.findingsOf items = .error .overflowError) := by
  induction items with
  | nil => exact .inl ⟨fun _ h => absurd h List.not_mem_nil, rfl⟩
  | cons item items ih =>
      rcases findingOf_eq (p := p) item with ⟨hpass, hitem⟩ | ⟨hover, hitem⟩
      · rcases ih with ⟨hall, hitems⟩ | ⟨⟨other, hmem, hother⟩, hitems⟩
        · refine .inl ⟨List.forall_mem_cons.mpr ⟨hpass, hall⟩, ?_⟩
          rw [findingsOf, hitem, hitems]
          cases hown : p.ownFinding item with
          | none => rw [List.filterMap_cons_none hown]; rfl
          | some finding => rw [List.filterMap_cons_some hown]; rfl
        · refine .inr ⟨⟨other, List.mem_cons_of_mem _ hmem, hother⟩, ?_⟩
          rw [findingsOf, hitem, hitems]
          rfl
      · exact .inr ⟨⟨item, List.mem_cons_self, hover⟩, by rw [findingsOf, hitem]⟩

theorem overflows_itemsOf (hmem : item ∈ itemsOf value) (hover : ConfidenceOverflows item) :
    ∃ items, value = .arr items ∧ item ∈ items := by
  cases value with
  | arr items => exact ⟨items, rfl, by rwa [itemsOf_arr] at hmem⟩
  | null => exact absurd hmem List.not_mem_nil
  | bool value =>
      cases value with
      | false => exact absurd hmem List.not_mem_nil
      | true => exact absurd hmem List.not_mem_nil
  | int value =>
      rcases iterated_eq (.int value) with ⟨hzero, -⟩ | ⟨-, herror⟩
      · obtain rfl : value = 0 := hzero
        exact absurd hmem List.not_mem_nil
      · rw [itemsOf, herror] at hmem
        exact absurd hmem List.not_mem_nil
  | float text =>
      rcases iterated_eq (.float text) with ⟨rfl | rfl, -⟩ | ⟨-, herror⟩
      · exact absurd hmem List.not_mem_nil
      · exact absurd hmem List.not_mem_nil
      · rw [itemsOf, herror] at hmem
        exact absurd hmem List.not_mem_nil
  | str points =>
      cases points with
      | nil => exact absurd hmem List.not_mem_nil
      | cons point points =>
          obtain ⟨other, -, rfl⟩ := List.mem_map.mp hmem
          exact hover.elim
  | obj fields =>
      cases fields with
      | nil => exact absurd hmem List.not_mem_nil
      | cons field fields =>
          obtain ⟨other, -, rfl⟩ := List.mem_map.mp hmem
          exact hover.elim

/-- An envelope is read just when it is readable, and no error of it is a `ValueError`. -/
theorem readEnvelope_eq (rawText : Points) (fields : List (Points × JsonValue)) :
    (Readable fields ∧ p.readEnvelope rawText fields = .ok (p.envelope rawText fields))
      ∨ (¬ Readable fields ∧ ∃ error,
          error ≠ .valueError ∧ p.readEnvelope rawText fields = .error error) := by
  rw [readEnvelope]
  rcases iterated_eq (fieldOf fields "findings") with ⟨hfindings, hitems⟩ | ⟨hfindings, hitems⟩
  · rcases findingsOf_eq (p := p) (itemsOf (fieldOf fields "findings")) with ⟨hall, hread⟩ |
      ⟨⟨item, hmem, hover⟩, hread⟩
    · rcases iterated_eq (fieldOf fields "negative_findings") with ⟨hnegatives, hothers⟩ |
        ⟨hnegatives, hothers⟩
      · refine .inl ⟨⟨hfindings, hnegatives, fun items hitems item hmem => hall item ?_⟩, ?_⟩
        · rwa [hitems, itemsOf_arr]
        · rw [hitems, hothers]
          simp only [hread, bind, Except.bind]
          rfl
      · refine .inr ⟨fun h => hnegatives h.negatives, .typeError, nofun, ?_⟩
        rw [hitems, hothers]
        simp only [bind, Except.bind, hread]
    · refine .inr ⟨fun h => ?_, .overflowError, nofun, ?_⟩
      · obtain ⟨items, hitems, hitem⟩ := overflows_itemsOf hmem hover
        exact h.confidences items hitems item hitem hover
      · rw [hitems]
        simp only [bind, Except.bind, hread]
  · refine .inr ⟨fun h => hfindings h.findings, .typeError, nofun, ?_⟩
    rw [hitems]
    rfl

/-! ### An object within its layout -/

/-- The text is an object that `json.loads` reads, from its first brace to its last. -/
def ObjectText (limits : Limits) (fields : List (Points × JsonValue)) (text : Points) : Prop :=
  text.head? = some (.inl '{') ∧ scan limits .start text = .ok (.obj fields, [])

section

variable {limits : Limits} {text more rest : Points}

/-- After its first brace an object is an open container. -/
theorem scan_brace (htext : text.head? = some (.inl '{'))
    (h : scan limits .start text = .ok (value, rest)) :
    ∃ state tail, state.stack ≠ [] ∧ text = .inl '{' :: tail
      ∧ scan limits state tail = .ok (value, rest)
      ∧ ∀ other, scan limits .start (.inl '{' :: other) = scan limits state other := by
  obtain ⟨tail, rfl⟩ : ∃ tail, text = .inl '{' :: tail := by
    cases text with
    | nil => cases htext
    | cons point tail => exact ⟨tail, by rw [Option.some.inj htext]⟩
  have hstep : step limits .start (.inl '{') = enter limits [] (.object [] []) .firstKey := rfl
  by_cases hroom : 0 < limits.maxDepth
  · have hnext : step limits .start (.inl '{') = .next { stack := [.object [] []], mode := .firstKey } := by
      rw [hstep, enter, List.length_nil, if_pos hroom]
    have hscan : ∀ other, scan limits .start (.inl '{' :: other)
        = scan limits { stack := [.object [] []], mode := .firstKey } other := by
      intro other
      rw [scan, hnext]
    exact ⟨{ stack := [.object [] []], mode := .firstKey }, tail, List.cons_ne_nil _ _, rfl,
      by rw [← hscan, h], hscan⟩
  · rw [scan, hstep, enter, List.length_nil, if_neg hroom] at h
    cases h

theorem scan_brace_append (htext : text.head? = some (.inl '{'))
    (h : scan limits .start text = .ok (value, rest)) (more : Points) :
    scan limits .start (text ++ more) = .ok (value, rest ++ more) := by
  obtain ⟨state, tail, hstack, rfl, hscan, hall⟩ := scan_brace htext h
  rw [List.cons_append, hall]
  exact scan_append hstack hscan more

theorem ObjectText.scan_append (h : ObjectText limits fields text) (more : Points) :
    scan limits .start (text ++ more) = .ok (.obj fields, more) :=
  scan_brace_append h.1 h.2 more

/-- An object ends with a closing bracket. -/
theorem ObjectText.closed (h : ObjectText limits fields text) :
    ∃ body close, text = body ++ [close] ∧ (close = .inl ']' ∨ close = .inl '}') := by
  obtain ⟨state, tail, hstack, rfl, hscan, -⟩ := scan_brace h.1 h.2
  obtain ⟨body, close, htail, hclose⟩ := scan_closed hstack hscan
  exact ⟨.inl '{' :: body, close, by rw [htail, List.cons_append], hclose⟩

theorem loads_brace (htext : text.head? = some (.inl '{')) :
    loads limits text = match scan limits .start text with
      | .error error => .error error
      | .ok (value, rest) => if rest.all isWs then .ok value else .error .valueError := by
  unfold loads
  exact if_neg (by rw [htext]; decide)

/-- What is loaded of an object with more text behind it. -/
theorem ObjectText.loads_append (h : ObjectText limits fields text) (more : Points) :
    loads limits (text ++ more) =
      if more.all isWs then .ok (.obj fields) else .error .valueError := by
  have hhead : (text ++ more).head? = some (.inl '{') := by
    rw [List.head?_append, h.1]
    rfl
  rw [loads_brace hhead, h.scan_append]

/-- An object that is cut short is not read at all. -/
theorem ObjectText.loads_cut (h : ObjectText limits fields text) {stop : ℕ} (hpos : 0 < stop)
    (hstop : stop < text.length) (value : JsonValue) :
    loads limits (text.take stop) ≠ .ok value := by
  intro hloads
  have hhead : (text.take stop).head? = some (.inl '{') := by
    rw [List.head?_take, if_neg hpos.ne', h.1]
  rw [loads_brace hhead] at hloads
  cases hscan : scan limits .start (text.take stop) with
  | error error =>
      rw [hscan] at hloads
      exact nomatch hloads
  | ok found =>
      obtain ⟨other, rest⟩ := found
      have hwhole := scan_brace_append hhead hscan (text.drop stop)
      rw [List.take_append_drop, h.2] at hwhole
      have hempty := (List.append_eq_nil_iff.mp (Prod.mk.inj (Except.ok.inj hwhole)).2.symm).2
      exact absurd (List.drop_eq_nil_iff.mp hempty) (not_le.mpr hstop)

/-! ### The braces -/

theorem braceEnd_spec {depth stop : ℕ} (h : braceEnd depth text = some stop) :
    0 < stop ∧ stop ≤ text.length ∧ text[stop - 1]? = some (.inl '}') := by
  induction text generalizing depth stop with
  | nil => exact nomatch h
  | cons point rest ih =>
      have hrest : ∀ {depth}, (braceEnd depth rest).map (· + 1) = some stop →
          0 < stop ∧ stop ≤ (point :: rest).length
          ∧ (point :: rest)[stop - 1]? = some (.inl '}') := by
        intro depth hmap
        obtain ⟨inner, hinner, rfl⟩ := Option.map_eq_some_iff.mp hmap
        obtain ⟨hpos, hle, hget⟩ := ih hinner
        obtain ⟨before, rfl⟩ : ∃ before, inner = before + 1 := ⟨inner - 1, by omega⟩
        exact ⟨Nat.succ_pos _, Nat.succ_le_succ hle, hget⟩
      rw [braceEnd] at h
      split_ifs at h with hopen hclose hlast
      · exact hrest h
      · obtain rfl := Option.some.inj h
        exact ⟨one_pos, Nat.succ_le_succ (Nat.zero_le _), by rw [hclose]; rfl⟩
      · exact hrest h
      · exact hrest h

theorem braceEnd_append {depth stop : ℕ} (more : Points) :
    braceEnd depth text = some stop ↔ braceEnd depth (text ++ more) = some stop
    ∧ stop ≤ text.length := by
  induction text generalizing depth stop with
  | nil =>
      refine iff_of_false nofun fun ⟨h, hle⟩ => ?_
      exact absurd (braceEnd_spec h).1 (not_lt.mpr hle)
  | cons point rest ih =>
      have hrest : ∀ depth, (braceEnd depth rest).map (· + 1) = some stop
          ↔ (braceEnd depth (rest ++ more)).map (· + 1) = some stop ∧ stop ≤ rest.length + 1 := by
        intro depth
        rw [Option.map_eq_some_iff, Option.map_eq_some_iff]
        constructor
        · rintro ⟨inner, hinner, rfl⟩
          exact ⟨⟨inner, (ih.mp hinner).1, rfl⟩, Nat.succ_le_succ (ih.mp hinner).2⟩
        · rintro ⟨⟨inner, hinner, rfl⟩, hle⟩
          exact ⟨inner, ih.mpr ⟨hinner, Nat.le_of_succ_le_succ hle⟩, rfl⟩
      rw [List.cons_append, braceEnd, braceEnd, List.length_cons]
      split_ifs
      · exact hrest _
      · exact ⟨fun h => ⟨h, by rw [← Option.some.inj h]; omega⟩, And.left⟩
      · exact hrest _
      · exact hrest _

/-- The count of braces ends with the object; or it never ends and nothing follows the object. -/
def Trims (object tail : Points) : Prop :=
  braceEnd 0 object = some object.length ∨ (braceEnd 0 object = none ∧ tail = [])

/-- The text does not end with a space of JSON. -/
def Stripped (text : Points) : Prop := ∀ last ∈ text.getLast?, isWs last = false

theorem isWs_all_of_stripped (htext : Stripped text) (hall : text.all isWs = true) : text = [] := by
  cases hlast : text.getLast? with
  | none => exact List.getLast?_eq_none_iff.mp hlast
  | some last =>
      have hws := List.all_eq_true.mp hall last (List.mem_of_getLast? hlast)
      rw [htext last hlast] at hws
      exact nomatch hws

theorem ObjectText.trimProse (h : ObjectText limits fields text) (tail : Points)
    (htail : Stripped tail) :
    (Trims text tail ∧ loads limits (trimProse (text ++ tail)) = .ok (.obj fields))
      ∨ (¬ Trims text tail ∧ ∀ value, loads limits (trimProse (text ++ tail)) ≠ .ok value) := by
  have hhead : (text ++ tail).head? = some (.inl '{') := by
    rw [List.head?_append, h.1]
    rfl
  have hwhole : loads limits text = .ok (.obj fields) := by
    have hnil := h.loads_append []
    rwa [List.append_nil] at hnil
  rw [Quorum.trimProse, if_pos hhead]
  cases hstop : braceEnd 0 (text ++ tail) with
  | none =>
      have hnone : braceEnd 0 text = none := by
        cases hobject : braceEnd 0 text with
        | none => rfl
        | some stop => exact nomatch hstop.symm.trans ((braceEnd_append tail).mp hobject).1
      by_cases hempty : tail = []
      · refine .inl ⟨.inr ⟨hnone, hempty⟩, ?_⟩
        rw [hempty, List.append_nil]
        exact hwhole
      · refine .inr ⟨fun htrims => ?_, fun value hvalue => ?_⟩
        · rcases htrims with hsome | ⟨-, hnil⟩
          · exact nomatch hnone.symm.trans hsome
          · exact hempty hnil
        · rw [h.loads_append] at hvalue
          split_ifs at hvalue with hall
          exact hempty (isWs_all_of_stripped htail hall)
  | some stop =>
      obtain ⟨hpos, hle, hclose⟩ := braceEnd_spec hstop
      rcases lt_trichotomy stop text.length with hlt | rfl | hgt
      · have hobject : braceEnd 0 text = some stop := (braceEnd_append tail).mpr ⟨hstop, hlt.le⟩
        refine .inr ⟨fun htrims => ?_, fun value => ?_⟩
        · rcases htrims with hsome | ⟨hnone, -⟩
          · exact hlt.ne (Option.some.inj (hobject.symm.trans hsome))
          · exact nomatch hnone.symm.trans hobject
        · dsimp only
          rw [List.take_append_of_le_length hlt.le]
          exact h.loads_cut hpos hlt value
      · have hobject : braceEnd 0 text = some text.length :=
          (braceEnd_append tail).mpr ⟨hstop, le_rfl⟩
        refine .inl ⟨.inl hobject, ?_⟩
        dsimp only
        rw [List.take_left]
        exact hwhole
      · refine .inr ⟨fun htrims => ?_, fun value hvalue => ?_⟩
        · rcases htrims with hsome | ⟨-, rfl⟩
          · have hsame := ((braceEnd_append tail).mp hsome).1
            exact hgt.ne (Option.some.inj (hsame.symm.trans hstop))
          · rw [List.append_nil] at hle
            omega
        · dsimp only at hvalue
          obtain ⟨extra, hextra⟩ : ∃ extra, stop = text.length + (extra + 1) :=
            ⟨stop - text.length - 1, by omega⟩
          rw [hextra, List.take_length_add_append, h.loads_append] at hvalue
          split_ifs at hvalue with hall
          have hmem : (.inl '}' : CodePoint) ∈ tail.take (extra + 1) := by
            rw [List.getElem?_append_right (by omega)] at hclose
            apply List.mem_of_getElem? (i := extra)
            rw [List.getElem?_take_of_lt (Nat.lt_succ_self _), ← hclose]
            congr 1
            omega
          exact absurd (List.all_eq_true.mp hall _ hmem) (by decide)

end

/-! ### The layouts -/

section

variable {limits : Limits} {text more object prose : Points}

/-- The spaces of the layout are spaces, and what names the fence is on its line. -/
def WellLaid (p : AuditTables) : AuditLayout → Prop
  | .plain lead => ∀ point ∈ lead, p.isBlank point = true
  | .fenced lead info inner =>
      (∀ point ∈ lead, p.isBlank point = true) ∧ (∀ point ∈ info, point ≠ .inl '\n')
        ∧ ∀ point ∈ inner, p.isBlank point = true

/-- What is left of the prose after the object when the reply is stripped. -/
def tailOf (p : AuditTables) (prose : Points) : AuditLayout → Points
  | .plain _ => prose.rdropWhile p.isBlank
  | .fenced _ _ _ => (dropFence (prose.rdropWhile p.isBlank)).rdropWhile p.isBlank

theorem isBlank_of_isWs {point : CodePoint} (h : isWs point = true) : p.isBlank point = true := by
  cases point with
  | inl ch => exact p.blanks ch (of_decide_eq_true h)
  | inr surrogate => exact nomatch h

theorem stripped_rdropWhile (text : Points) : Stripped (text.rdropWhile p.isBlank) := by
  intro last hlast
  have hne : text.rdropWhile p.isBlank ≠ [] := by
    rintro hnil
    rw [hnil] at hlast
    exact nomatch hlast
  have hgetLast := List.rdropWhile_last_not p.isBlank text hne
  rw [List.getLast?_eq_some_getLast hne, Option.mem_some_iff] at hlast
  rw [hlast] at hgetLast
  exact Bool.eq_false_iff.mpr fun hws => hgetLast (isBlank_of_isWs hws)

theorem stripped_tailOf (prose : Points) (layout : AuditLayout) :
    Stripped (p.tailOf prose layout) := by
  cases layout with
  | plain lead => exact stripped_rdropWhile prose
  | fenced lead info inner => exact stripped_rdropWhile _

theorem rdropWhile_append_closed {pred : CodePoint → Bool} {close : CodePoint}
    (hclose : pred close = false) (body more : Points) :
    (body ++ [close] ++ more).rdropWhile pred = body ++ [close] ++ more.rdropWhile pred := by
  induction more using List.reverseRecOn with
  | nil => rw [List.append_nil, List.rdropWhile_nil, List.append_nil,
      List.rdropWhile_concat_neg _ _ _ (Bool.eq_false_iff.mp hclose)]
  | append_singleton more last ih =>
      rw [← List.append_assoc]
      by_cases hlast : pred last = true
      · rw [List.rdropWhile_concat_pos _ _ _ hlast, List.rdropWhile_concat_pos _ _ _ hlast, ih]
      · rw [List.rdropWhile_concat_neg _ _ _ hlast, List.rdropWhile_concat_neg _ _ _ hlast,
          ← List.append_assoc]

theorem dropWhile_append_blank {pred : CodePoint → Bool} {lead : Points}
    (hlead : ∀ point ∈ lead, pred point = true) (more : Points) :
    (lead ++ more).dropWhile pred = more.dropWhile pred := by
  rw [List.dropWhile_append, List.dropWhile_eq_nil_iff.mpr hlead]
  rfl

/-- A text that ends with a mark keeps it when the fence after it is dropped. -/
theorem dropFence_append_closed {close : CodePoint} (hclose : close ≠ .inl '\x60')
    (body more : Points) :
    dropFence (body ++ [close] ++ more) = body ++ [close] ++ dropFence more := by
  by_cases hmore : fence <:+ more
  · have hlength : 3 ≤ more.length := hmore.length_le
    have hwhole : fence <:+ body ++ [close] ++ more := hmore.trans (List.suffix_append _ _)
    rw [dropFence, if_pos hwhole, dropFence, if_pos hmore, List.length_append,
      Nat.add_sub_assoc hlength, List.take_length_add_append]
  · have hwhole : ¬ fence <:+ body ++ [close] ++ more := by
      intro hsuffix
      rcases Nat.lt_or_ge more.length 3 with hshort | hlong
      · have hinner : more <:+ fence :=
          List.suffix_of_suffix_length_le (List.suffix_append _ _) hsuffix hshort.le
        obtain ⟨mid, hmid⟩ := hinner
        obtain ⟨before, hbefore⟩ := hsuffix
        rw [← hmid, ← List.append_assoc] at hbefore
        have hsame : before ++ mid = body ++ [close] := List.append_cancel_right hbefore
        have hne : mid ≠ [] := by
          rintro rfl
          rw [List.nil_append] at hmid
          rw [hmid] at hshort
          exact absurd hshort (by decide)
        have hlast : close ∈ mid := by
          have hget := congrArg List.getLast? hsame
          rw [List.getLast?_append_of_ne_nil _ hne, List.getLast?_concat] at hget
          exact List.mem_of_getLast? hget
        have hfence : ∀ point ∈ fence, point = .inl '\x60' := by decide
        exact hclose (hfence close (hmid ▸ List.mem_append_left _ hlast))
      · exact hmore (List.suffix_of_suffix_length_le hsuffix (List.suffix_append _ _) hlong)
    rw [dropFence, if_neg hwhole, dropFence, if_neg hmore]

theorem afterNewline_line {info rest : Points} (hinfo : ∀ point ∈ info, point ≠ .inl '\n') :
    afterNewline (fence ++ (info ++ .inl '\n' :: rest)) = rest := by
  have hline : ∀ point ∈ fence ++ info, decide (point ≠ .inl '\n') = true := by
    intro point hmem
    rcases List.mem_append.mp hmem with hfence | hname
    · have hall : ∀ point ∈ fence, point ≠ .inl '\n' := by decide
      exact decide_eq_true (hall point hfence)
    · exact decide_eq_true (hinfo point hname)
  rw [afterNewline, ← List.append_assoc, dropWhile_append_blank hline]
  rfl

/-- The layout comes off the object, and of the prose the spaces and the fence at its end. -/
theorem stripFence_strip (p : AuditTables) {layout : AuditLayout} (hlayout : p.WellLaid layout)
    (hobject : ObjectText limits fields object) (prose : Points) :
    p.stripFence (p.strip (layout.reply object prose)) = object ++ p.tailOf prose layout := by
  obtain ⟨body, close, hclosed, hclose⟩ := hobject.closed
  obtain ⟨tail, hopen⟩ : ∃ tail, object = .inl '{' :: tail := by
    cases object with
    | nil => exact nomatch hobject.1
    | cons point tail => exact ⟨tail, by rw [Option.some.inj hobject.1]⟩
  have hbrace : p.isBlank (.inl '{') = false := p.marks '{' (by decide)
  have hblank : p.isBlank close = false := by
    rcases hclose with rfl | rfl
    · exact p.marks ']' (by decide)
    · exact p.marks '}' (by decide)
  have htick : close ≠ .inl '\x60' := by
    rcases hclose with rfl | rfl
    · decide
    · decide
  have hobjectStrip : ∀ lead more, (∀ point ∈ lead, p.isBlank point = true) →
      p.strip (lead ++ (object ++ more)) = object ++ more.rdropWhile p.isBlank := by
    intro lead more hlead
    have hstart : (object ++ more).dropWhile p.isBlank = object ++ more := by
      rw [hopen, List.cons_append, List.dropWhile_cons_of_neg (Bool.eq_false_iff.mp hbrace)]
    rw [strip, dropWhile_append_blank hlead, hstart, hclosed, rdropWhile_append_closed hblank]
  cases layout with
  | plain lead =>
      have hfence : ¬ fence <+: object ++ prose.rdropWhile p.isBlank := by
        rw [hopen]
        rintro ⟨rest, hrest⟩
        exact absurd (List.cons.inj hrest).1 (by decide)
      rw [AuditLayout.reply, hobjectStrip lead prose hlayout, stripFence, if_neg hfence, tailOf]
  | fenced lead info inner =>
      obtain ⟨hlead, hinfo, hinner⟩ := hlayout
      have hstrip : p.strip (lead ++ (fence ++ (info ++ .inl '\n' :: (inner ++ (object ++ prose)))))
          = fence ++ (info ++ .inl '\n' :: (inner ++ (object ++ prose.rdropWhile p.isBlank))) := by
        have hstart : ∀ more, (fence ++ more).dropWhile p.isBlank = fence ++ more := fun more =>
          List.dropWhile_cons_of_neg (Bool.eq_false_iff.mp (p.marks '\x60' (by decide)))
        have hsplit : ∀ more, fence ++ (info ++ .inl '\n' :: (inner ++ (object ++ more)))
            = (fence ++ (info ++ .inl '\n' :: (inner ++ body))) ++ [close] ++ more := by
          intro more
          simp only [hclosed, List.append_assoc, List.cons_append]
        rw [strip, dropWhile_append_blank hlead, hstart, hsplit, rdropWhile_append_closed hblank,
          ← hsplit]
      have hdrop : dropFence (inner ++ (object ++ prose.rdropWhile p.isBlank))
          = inner ++ (object ++ dropFence (prose.rdropWhile p.isBlank)) := by
        have hsplit : ∀ more, inner ++ (object ++ more) = (inner ++ body) ++ [close] ++ more := by
          intro more
          simp only [hclosed, List.append_assoc]
        rw [hsplit, dropFence_append_closed htick, ← hsplit]
      rw [AuditLayout.reply, hstrip, stripFence, if_pos (List.prefix_append _ _),
        afterNewline_line hinfo, hdrop, hobjectStrip inner _ hinner, tailOf]

/-- An object in a layout is read just when its braces are trimmed rightly and its envelope is
readable. -/
theorem parseAuditResponse_object_iff (p : AuditTables) {layout : AuditLayout}
    (hlayout : p.WellLaid layout) (hobject : ObjectText p.toLimits fields object) (prose : Points) :
    p.parseAuditResponse (layout.reply object prose)
      = .ok (p.envelope (layout.reply object prose) fields)
      ↔ Trims object (p.tailOf prose layout) ∧ Readable fields := by
  rw [parseAuditResponse, auditedText, stripFence_strip p hlayout hobject]
  rcases hobject.trimProse (p.tailOf prose layout) (stripped_tailOf prose layout) with
    ⟨htrims, hloads⟩ | ⟨htrims, hloads⟩
  · rw [hloads, and_iff_right htrims]
    rcases readEnvelope_eq (p := p) (layout.reply object prose) fields with ⟨hread, hok⟩ |
      ⟨hread, error, -, herror⟩
    · exact iff_of_true hok hread
    · refine iff_of_false (fun hok => ?_) hread
      exact nomatch herror.symm.trans hok
  · refine iff_of_false (fun hok => ?_) fun h => htrims h.1
    cases hfound : loads p.toLimits (trimProse (object ++ p.tailOf prose layout)) with
    | ok value => exact hloads value hfound
    | error error =>
        rw [hfound] at hok
        cases error with
        | valueError => exact nomatch hok
        | recursionError => exact nomatch hok

end

/-- What is audited of the reply is no JSON, or an envelope that can be read. -/
def Answerable (p : AuditTables) (rawText : Points) : Prop :=
  loads p.toLimits (p.auditedText rawText) = .error .valueError
    ∨ ∃ fields, loads p.toLimits (p.auditedText rawText) = .ok (.obj fields) ∧ Readable fields

theorem parseAuditResponse_answers_iff (p : AuditTables) (rawText : Points) :
    ((∃ response, p.parseAuditResponse rawText = .ok response)
      ∨ p.parseAuditResponse rawText = .error .valueError)
      ↔ p.Answerable rawText := by
  have hraised : ∀ error : AuditError, error ≠ .valueError →
      ¬ ((∃ response : AuditResponse, Except.error error = .ok response)
        ∨ (Except.error error : Except AuditError AuditResponse) = .error .valueError) := by
    rintro error hvalue (⟨response, hok⟩ | herror)
    · exact nomatch hok
    · exact hvalue (Except.error.inj herror)
  have hother : ∀ value, (∀ fields, value ≠ .obj fields) →
      ¬ ((.ok value : Except ScanError JsonValue) = .error .valueError
        ∨ ∃ fields, (.ok value : Except ScanError JsonValue) = .ok (.obj fields)
            ∧ Readable fields) := by
    rintro value hvalue (herror | ⟨fields, hok, -⟩)
    · exact nomatch herror
    · exact hvalue fields (Except.ok.inj hok)
  rw [parseAuditResponse, Answerable]
  cases loads p.toLimits (p.auditedText rawText) with
  | error error =>
      cases error with
      | valueError => exact iff_of_true (.inr rfl) (.inl rfl)
      | recursionError =>
          refine iff_of_false (hraised .recursionError nofun) ?_
          rintro (herror | ⟨fields, hok, -⟩)
          · exact nomatch herror
          · exact nomatch hok
  | ok value =>
      cases value with
      | obj fields =>
          dsimp only
          rcases readEnvelope_eq (p := p) rawText fields with ⟨hread, hok⟩ |
            ⟨hread, error, hvalue, herror⟩
          · exact iff_of_true (.inl ⟨_, hok⟩) (.inr ⟨fields, rfl, hread⟩)
          · rw [herror]
            refine iff_of_false (hraised error hvalue) ?_
            rintro (h | ⟨other, hsame, hreadable⟩)
            · exact nomatch h
            · exact hread (JsonValue.obj.inj (Except.ok.inj hsame) ▸ hreadable)
      | null => exact iff_of_false (hraised .attributeError nofun) (hother _ nofun)
      | bool value => exact iff_of_false (hraised .attributeError nofun) (hother _ nofun)
      | int value => exact iff_of_false (hraised .attributeError nofun) (hother _ nofun)
      | float text => exact iff_of_false (hraised .attributeError nofun) (hother _ nofun)
      | str points => exact iff_of_false (hraised .attributeError nofun) (hother _ nofun)
      | arr items => exact iff_of_false (hraised .attributeError nofun) (hother _ nofun)

theorem parseAuditResponse_ok_iff {p : AuditTables} {rawText : Points} {response : AuditResponse} :
    p.parseAuditResponse rawText = .ok response ↔ ∃ fields,
      loads p.toLimits (p.auditedText rawText) = .ok (.obj fields) ∧ Readable fields ∧
        p.envelope rawText fields = response := by
  rw [parseAuditResponse]
  cases hloads : loads p.toLimits (p.auditedText rawText) with
  | error error =>
      refine iff_of_false ?_ fun ⟨_, h, _⟩ => nomatch h
      cases error with
      | valueError => exact nofun
      | recursionError => exact nofun
  | ok value =>
      have hother : (∀ fields, value ≠ .obj fields) →
          ¬ ∃ fields, (.ok value : Except ScanError JsonValue) = .ok (.obj fields)
            ∧ Readable fields ∧
            p.envelope rawText fields = response :=
        fun hvalue ⟨fields, h, _⟩ => hvalue fields (Except.ok.inj h)
      cases value with
      | obj fields =>
          dsimp only
          constructor
          · intro hok
            rcases readEnvelope_eq (p := p) rawText fields with ⟨hread, henvelope⟩ |
              ⟨-, error, -, herror⟩
            · exact ⟨fields, rfl, hread, Except.ok.inj (henvelope.symm.trans hok)⟩
            · exact nomatch herror.symm.trans hok
          · rintro ⟨other, hsame, hread, rfl⟩
            obtain rfl := JsonValue.obj.inj (Except.ok.inj hsame)
            rcases readEnvelope_eq (p := p) rawText fields with ⟨-, henvelope⟩ | ⟨hnot, -⟩
            · exact henvelope
            · exact absurd hread hnot
      | null => exact iff_of_false nofun (hother nofun)
      | bool value => exact iff_of_false nofun (hother nofun)
      | int value => exact iff_of_false nofun (hother nofun)
      | float text => exact iff_of_false nofun (hother nofun)
      | str points => exact iff_of_false nofun (hother nofun)
      | arr items => exact iff_of_false nofun (hother nofun)

end AuditTables

end Quorum
