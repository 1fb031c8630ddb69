import Quorum.BaseBracket
import Quorum.SynthesisLength

/-! Inline citation markers of an answer (`evaluation`): the scan that takes the links out of the
prose, and the bracketed ordinals that are left. -/

namespace Quorum

/-- The classes `\s` and `\d` of the marker patterns. -/
structure MarkerTables where
  isspace : Char → Bool
  isDecimal : Char → Bool
  blank : isspace ' ' = true
  brackets : ∀ ch ∈ ['[', ']'], isspace ch = false ∧ isDecimal ch = false

/-- A link as the scan records it. -/
structure LinkSpan where
  start : ℕ
  stop : ℕ
  url : Option Text
deriving DecidableEq

/-- The state of the scan: the open brackets, innermost first, and the links found. -/
structure LinkScan where
  index : ℕ
  opens : List ℕ
  spans : List LinkSpan
deriving DecidableEq

def isBracket (ch : Char) : Bool := ch == '[' || ch == ']'

def LinkScan.initial : LinkScan := { index := 0, opens := [], spans := [] }

namespace MarkerTables

variable (m : MarkerTables)

/-- A character of a target: neither space nor the closing parenthesis. -/
def inTarget (ch : Char) : Bool := !m.isspace ch && ch != ')'

/-- How much `_LINK_TARGET_SHAPE_RE` consumes here: an opened target, its run, closed or not. -/
def targetShape (text : Text) : Option ℕ :=
  match text with
  | '(' :: rest =>
      let spaces := rest.takeWhile m.isspace
      let run := ((rest.drop spaces.length).takeWhile m.inTarget).take 2000
      let after := rest.drop (spaces.length + run.length)
      let trailing := after.takeWhile m.isspace
      let closing := if (after.drop trailing.length).head? = some ')' then 1 else 0
      some (1 + spaces.length + run.length + trailing.length + closing)
  | _ => none

/-- How long the `https?://` is that the text begins with. -/
def schemeLength (text : Text) : Option ℕ :=
  if "https://".toList.isPrefixOf text then some 8
  else if "http://".toList.isPrefixOf text then some 7
  else none

/-- The URL that `_LINK_TARGET_RE` reads here. -/
def linkTarget (text : Text) : Option Text :=
  match text with
  | '(' :: rest =>
      let target := rest.dropWhile m.isspace
      (schemeLength target).bind fun width =>
        let run := ((target.drop width).takeWhile m.inTarget).take 2000
        let after := (target.drop (width + run.length)).dropWhile m.isspace
        if run ≠ [] ∧ after.head? = some ')' then some (target.take width ++ run) else none
  | _ => none

/-- The next bracket at or after an index. -/
def nextBracket (text : Text) (index : ℕ) : Option ℕ :=
  ((text.drop index).findIdx? isBracket).map (index + ·)

/-- One turn of the scan's loop; `none` when the loop ends. -/
def scanStep (text : Text) (scan : LinkScan) : Option LinkScan :=
  if scan.index < text.length then
    match nextBracket text scan.index with
    | none => none
    | some index =>
        if text[index]? = some '[' then
          some { scan with index := index + 1, opens := index :: scan.opens }
        else
          match scan.opens with
          | [] => some { scan with index := index + 1 }
          | start :: opens =>
              match m.targetShape (text.drop (index + 1)) with
              | none => some { scan with index := index + 1, opens }
              | some width =>
                  some
                    { index := index + 1 + width
                      opens
                      spans := scan.spans ++
                        [{ start, stop := index + 1 + width
                           url := m.linkTarget (text.drop (index + 1)) }] }
  else none

/-- The links when the loop ends within the fuel. -/
def scanLoop (text : Text) : ℕ → LinkScan → Option (List LinkSpan)
  | 0, _ => none
  | fuel + 1, scan =>
      match m.scanStep text scan with
      | none => some scan.spans
      | some next => scanLoop text fuel next

end MarkerTables

/-- The text consumed so far and the prose kept of it, after one more span. -/
def dropSpan (text : Text) (kept : ℕ × Text) (span : ℕ × ℕ) : ℕ × Text :=
  if kept.1 ≤ span.1 then
    (max kept.1 span.2, kept.2 ++ (text.drop kept.1).take (span.1 - kept.1) ++ [' '])
  else (max kept.1 span.2, kept.2)

/-- The prose with every span a space; spans within a span go with it. -/
def dropSpans (text : Text) (spans : List (ℕ × ℕ)) : Text :=
  let kept := spans.foldl (dropSpan text) (0, [])
  kept.2 ++ text.drop kept.1

namespace MarkerTables

variable (m : MarkerTables)

/-- `_scan_links`: the URLs, and the prose with every link shape removed. -/
def scanLinks (text : Text) : Option (List Text × Text) :=
  (m.scanLoop text (text.length + 1) .initial).map fun spans =>
    let sorted := spans.insertionSort fun left right => left.start ≤ right.start
    (sorted.filterMap LinkSpan.url, dropSpans text (sorted.map fun span => (span.start, span.stop)))

def strip (text : Text) : Text :=
  (text.dropWhile m.isspace).rdropWhile m.isspace

def isSeparator (ch : Char) : Bool := ch == ',' || ch == ';'

/-- One to three digits, with any space around them. -/
def isOrdinal (part : Text) : Bool :=
  1 ≤ (m.strip part).length && (m.strip part).length ≤ 3 && (m.strip part).all m.isDecimal

/-- The group that `_ORDINAL_MARKER_RE` captures of what stands between two brackets. -/
def ordinalList (content : Text) : Option Text :=
  if (content.splitOnP isSeparator).all m.isOrdinal then some (m.strip content) else none

/-- The pattern's match here: its group and how far it goes past its first character. -/
def ordinalAt (text : Text) : Option (Text × ℕ) :=
  match text with
  | '[' :: rest =>
      let content := rest.takeWhile (· ≠ ']')
      if content.length < rest.length then
        (m.ordinalList content).map fun group => (group, content.length + 1)
      else none
  | _ => none

/-- `findall`: the groups of the matches, from left to right, each search from the end of the
last. -/
def findOrdinals : ℕ → Text → List Text
  | _, [] => []
  | skip + 1, _ :: rest => findOrdinals skip rest
  | 0, ch :: rest =>
      match m.ordinalAt (ch :: rest) with
      | some (group, width) => group :: findOrdinals width rest
      | none => findOrdinals 0 rest

/-- The ordinals of a group. -/
def splitOrdinals (group : Text) : List Text :=
  ((group.splitOnP isSeparator).map m.strip).filter (· ≠ [])

/-- Every inline citation marker, the links' URLs first. The prose is what the renderer's parser
leaves of the answer without its code. -/
def extractCitationMarkers (proseOnly : Text → Text) (text : Text) : Option (List Text) :=
  if text = [] then some []
  else
    (m.scanLinks (proseOnly text)).map fun (urls, remainder) =>
      urls ++ (m.findOrdinals 0 remainder).flatMap m.splitOrdinals

/-! ### The loop ends -/

variable {m} {text : Text}

theorem nextBracket_eq_some {index bracket : ℕ} (h : nextBracket text index = some bracket) :
    index ≤ bracket ∧ bracket < text.length := by
  obtain ⟨offset, hoffset, rfl⟩ := Option.map_eq_some_iff.mp h
  have hlt := (List.findIdx?_eq_some_iff_findIdx_eq.mp hoffset).1
  rw [List.length_drop] at hlt
  omega

theorem scanStep_lt {scan next : LinkScan} (h : m.scanStep text scan = some next) :
    scan.index < text.length ∧ scan.index < next.index := by
  rw [scanStep] at h
  split_ifs at h with hindex
  refine ⟨hindex, ?_⟩
  cases hbracket : nextBracket text scan.index with
  | none =>
      rw [hbracket] at h
      cases h
  | some bracket =>
      obtain ⟨hle, -⟩ := nextBracket_eq_some hbracket
      rw [hbracket] at h
      dsimp only at h
      split_ifs at h
      · rw [← Option.some.inj h]
        dsimp only
        omega
      · split at h
        · rw [← Option.some.inj h]
          dsimp only
          omega
        · split at h <;> rw [← Option.some.inj h] <;> dsimp only <;> omega

/-- Each turn moves on in the text, so the loop ends before it has taken more turns than that. -/
theorem exists_scanLoop (m : MarkerTables) (text : Text) :
    ∀ (fuel : ℕ) (scan : LinkScan), text.length - scan.index < fuel →
      ∃ spans, m.scanLoop text fuel scan = some spans := by
  intro fuel
  induction fuel with
  | zero => exact fun scan h => absurd h (Nat.not_lt_zero _)
  | succ fuel ih =>
      intro scan h
      rw [scanLoop]
      cases hstep : m.scanStep text scan with
      | none => exact ⟨scan.spans, rfl⟩
      | some next =>
          obtain ⟨hindex, hnext⟩ := scanStep_lt hstep
          exact ih next (by omega)

theorem exists_scanLinks (m : MarkerTables) (text : Text) :
    ∃ urls remainder, m.scanLinks text = some (urls, remainder) := by
  obtain ⟨spans, hspans⟩ := exists_scanLoop m text (text.length + 1) .initial
    (Nat.lt_succ_of_le (Nat.sub_le _ _))
  exact ⟨_, _, by rw [scanLinks, hspans, Option.map_some]⟩

end MarkerTables

end Quorum
