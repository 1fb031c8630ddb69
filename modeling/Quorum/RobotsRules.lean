import Quorum.BaseGlob
import Quorum.BaseUtf8
import Quorum.SynthesisLength

/-! The reading of robots.txt. A file is a list of groups, each of user-agent lines and the rules
under them; the longest matching rule of the groups that apply decides, and an Allow wins a tie.
Whatever cannot be checked is answered so, and the page is not fetched. -/

namespace Quorum

/-- `_ROBOTS_MAX_RULE_CHARS`. -/
def robotsMaxRuleChars : ℕ := 2048

/-- `_ROBOTS_MAX_RULES`. -/
def robotsMaxRules : ℕ := 4096

/-- `_ROBOTS_MAX_ADDRESS_CHARS`. -/
def robotsMaxAddressChars : ℕ := 2048

/-! ### Patterns -/

/-- `target.find(piece, position)`. -/
def findFrom (piece target : Text) (position : ℕ) : Option ℕ :=
  (find piece (target.drop position)).map (position + ·)

/-- The loop over the pieces between the first and the last: where the last one found ends. -/
def findPieces (target : Text) : List Text → ℕ → Option ℕ
  | [], position => some position
  | piece :: pieces, position =>
      match findFrom piece target position with
      | none => none
      | some found => findPieces target pieces (found + piece.length)

/-- `_robots_pattern_matches`. -/
def robotsPatternMatches (pattern target : Text) : Bool :=
  let anchored := pattern.getLast? = some '$'
  let pieces := (if anchored then pattern.dropLast else pattern).splitOn '*'
  if ¬(pieces.headD []).isPrefixOf target then false
  else
    match findPieces target pieces.tail.dropLast (pieces.headD []).length with
    | none => false
    | some position =>
        if pieces.length = 1 then ¬anchored ∨ position = target.length
        else
          let last := pieces.getLastD []
          if anchored then last.isSuffixOf target ∧ position + last.length ≤ target.length
          else (findFrom last target position).isSome

/-! ### One form for rules and addresses -/

def hexDigit (n : ℕ) : Char := if n < 10 then Char.ofNat (48 + n) else Char.ofNat (55 + n)

/-- `f"%{b:02X}"`. -/
def percentByte (byte : UInt8) : Text :=
  ['%', hexDigit (byte.toNat / 16), hexDigit (byte.toNat % 16)]

/-- The characters outside ASCII are percent-encoded as UTF-8. -/
def encodeNonAscii (text : Text) : Text :=
  text.flatMap fun ch => if ch.toNat < 128 then [ch] else (encodeUtf8 [ch]).flatMap percentByte

/-- `_UNRESERVED`. -/
def isUnreserved (ch : Char) : Bool := ch.isAlphanum ∨ ch ∈ ['-', '.', '_', '~']

def isHexDigit (ch : Char) : Bool := ch.isDigit ∨ ('A' ≤ ch ∧ ch ≤ 'F') ∨ ('a' ≤ ch ∧ ch ≤ 'f')

def hexValue (ch : Char) : ℕ :=
  if ch.isDigit then ch.toNat - 48 else if 'a' ≤ ch then ch.toNat - 87 else ch.toNat - 55

/-- One escape: decoded when it is of an unreserved character, else in upper case. -/
def escapeForm (high low : Char) : Text :=
  let ch := Char.ofNat (16 * hexValue high + hexValue low)
  if isUnreserved ch then [ch] else ['%', high.toUpper, low.toUpper]

/-- Every escape from left to right. -/
def normaliseEscapes : Text → Text
  | '%' :: high :: low :: rest =>
      if isHexDigit high && isHexDigit low then escapeForm high low ++ normaliseEscapes rest
      else '%' :: normaliseEscapes (high :: low :: rest)
  | ch :: rest => ch :: normaliseEscapes rest
  | [] => []

/-- `_robots_normalise`. -/
def robotsNormalise (text : Text) : Text := normaliseEscapes (encodeNonAscii text)

/-! ### Rules -/

/-- A rule: whether it allows, and its pattern. -/
abbrev RobotsRule := Bool × Text

/-- A line that the file's reading does not pass over. -/
inductive Directive
  | userAgent (value : Text)
  | rule (allow : Bool) (value : Text)
deriving DecidableEq

/-- The ends of lines besides a carriage return and a line feed. -/
def lineBoundaries : List Char :=
  [Char.ofNat 0x0b, Char.ofNat 0x0c, Char.ofNat 0x1c, Char.ofNat 0x1d, Char.ofNat 0x1e,
    Char.ofNat 0x85,
    Char.ofNat 0x2028, Char.ofNat 0x2029]

/-- `str.splitlines`, with the line read so far. -/
def splitLinesFrom (line : Text) : Text → List Text
  | [] => if line = [] then [] else [line]
  | '\r' :: '\n' :: rest => line :: splitLinesFrom [] rest
  | ch :: rest =>
      if ch = '\r' ∨ ch = '\n' ∨ ch ∈ lineBoundaries then line :: splitLinesFrom [] rest
      else splitLinesFrom (line ++ [ch]) rest

def splitLines (text : Text) : List Text := splitLinesFrom [] text

section

/- `t` stands for `str.strip` and `str.lower`, and `urlsplit` for the path and the query of an
address; nothing is assumed of them. -/
variable (t : TextTables) (urlsplit : Text → Text × Text)

/-- What a line says: nothing, without a separator or under another key. -/
def directive (rawLine : Text) : Option Directive :=
  let line := rawLine.takeWhile (· ≠ '#')
  if ':' ∉ line then none
  else
    let key := t.lower (t.strip (line.takeWhile (· ≠ ':')))
    let value := t.strip ((line.dropWhile (· ≠ ':')).drop 1)
    if key = "user-agent".toList then some (.userAgent value)
    else if key = "allow".toList then some (.rule true value)
    else if key = "disallow".toList then some (.rule false value)
    else none

inductive RobotsTooLarge
  | tooLarge
deriving DecidableEq

/-- The variables of the loop over the lines. -/
structure RobotsState where
  own : List RobotsRule
  star : List RobotsRule
  ownSeen : Bool
  agents : List Text
  inRules : Bool
  ruleCount : ℕ

def RobotsState.start : RobotsState := ⟨[], [], false, [], false, 0⟩

/-- One directive of the file. -/
def robotsStep (productToken : Text) (state : RobotsState) :
    Directive → Except RobotsTooLarge RobotsState
  | .userAgent value =>
      let agents := if state.inRules then [] else state.agents
      let agents := t.lower value :: agents
      .ok { state with
        agents := agents
        inRules := false
        ownSeen := state.ownSeen || decide (productToken ∈ agents) }
  | .rule allow value =>
      if robotsMaxRules < state.ruleCount + 1 ∨ robotsMaxRuleChars < value.length then
        .error .tooLarge
      else
        let rules := if value ≠ [] then [(allow, robotsNormalise value)] else []
        .ok { state with
          inRules := true
          ruleCount := state.ruleCount + 1
          own := if productToken ∈ state.agents then state.own ++ rules else state.own
          star := if ['*'] ∈ state.agents then state.star ++ rules else state.star }

/-- One line of the file. -/
def robotsLine (productToken : Text) (state : RobotsState) (rawLine : Text) :
    Except RobotsTooLarge RobotsState :=
  match directive t rawLine with
  | none => .ok state
  | some line => robotsStep t productToken state line

/-- The lines of a file, without its byte order mark. -/
def robotsLines (body : Text) : List Text :=
  splitLines (if ['\ufeff'].isPrefixOf body then body.drop 1 else body)

/-- `_robots_rules`. -/
def robotsRules (body productToken : Text) : Except RobotsTooLarge (List RobotsRule) := do
  let state ← (robotsLines body).foldlM (robotsLine t productToken) RobotsState.start
  return if state.ownSeen then state.own else state.star

/-! ### The verdict -/

inductive RobotsVerdict
  | allowed
  | refused
  | unchecked
deriving DecidableEq

/-- A length and whether it is allowed, as Python compares the pairs. -/
abbrev Best := ℤ ×ₗ Bool

/-- The best of the matching rules. -/
def bestRule (target : Text) (rules : List RobotsRule) : Best :=
  rules.foldl
    (fun best rule =>
      if robotsPatternMatches rule.2 target then max best
        (toLex ((rule.2.length : ℤ), rule.1)) else best)
    (toLex (-1, true))

/-- The path and the query of an address in one form. -/
def robotsTarget (url : Text) : Text :=
  let parts := urlsplit url
  robotsNormalise ((if parts.1 ≠ [] then parts.1 else ['/']) ++
    if parts.2 ≠ [] then '?' :: parts.2 else [])

def productToken (userAgent : Text) : Text := t.lower (t.strip (userAgent.takeWhile (· ≠ '/')))

/-- `robots_verdict`. -/
def robotsVerdict (robotsStatus : Option ℕ) (robotsBody : Option Text) (url userAgent : Text) :
    RobotsVerdict :=
  let target := robotsTarget urlsplit url
  match robotsStatus with
  | none => .unchecked
  | some status =>
      if robotsMaxAddressChars < target.length then .unchecked
      else if 400 ≤ status ∧ status < 500 then .allowed
      else if ¬(200 ≤ status ∧ status < 300) then .unchecked
      else
        match robotsRules t (robotsBody.getD []) (productToken t userAgent) with
        | .error _ => .unchecked
        | .ok rules => if (ofLex (bestRule target rules)).2 then .allowed else .refused

end

/-! ### The matcher is exact -/

open Glob

/-- What a rule's pattern asks: the target, or a start of it where no `$` ends the pattern, is the
pattern with some text for each `*`. -/
def RobotsMatches (pattern target : Text) : Prop :=
  if pattern.getLast? = some '$' then Expands '*' pattern.dropLast target
  else ∃ start, start <+: target ∧ Expands '*' pattern start

/-- The loop places the middle pieces exactly when they can be placed. -/
theorem findPieces_iff {final : Text → Prop}
    (hfinal : ∀ {text text' : Text}, text <:+ text' → final text → final text') (target : Text)
    (middle : List Text) (position : ℕ) :
    After final middle (target.drop position) ↔
      ∃ last, findPieces target middle position = some last ∧ final (target.drop last) := by
  induction middle generalizing position with
  | nil => simp [After, findPieces]
  | cons piece middle ih =>
      rw [findPieces, findFrom]
      cases hfind : find piece (target.drop position) with
      | none =>
          refine iff_of_false (not_after_cons_of_find hfind) ?_
          rintro ⟨last, hlast, -⟩
          cases hlast
      | some index =>
          rw [after_cons_of_find hfinal hfind, List.drop_drop, Option.map_some]
          rw [← add_assoc]
          exact ih (position + index + piece.length)

theorem findPieces_le {target : Text} {middle : List Text} {position last : ℕ}
    (hle : position ≤ target.length) (h : findPieces target middle position = some last) :
    last ≤ target.length := by
  induction middle generalizing position with
  | nil =>
      cases h
      exact hle
  | cons piece middle ih =>
      rw [findPieces, findFrom] at h
      cases hfind : find piece (target.drop position) with
      | none =>
          rw [hfind] at h
          cases h
      | some index =>
          rw [hfind] at h
          have hfound := find_add_length_le hfind
          rw [List.length_drop] at hfound
          refine ih ?_ h
          show position + index + piece.length ≤ target.length
          omega

theorem suffix_drop_iff {last target : Text} {position : ℕ} (hle : position ≤ target.length) :
    last <:+ target.drop position ↔ last <:+ target ∧ position + last.length ≤ target.length := by
  constructor
  · intro h
    have hlength := h.length_le
    rw [List.length_drop] at hlength
    exact ⟨h.trans (List.drop_suffix _ _), by omega⟩
  · rintro ⟨h, hlength⟩
    refine List.suffix_of_suffix_length_le h (List.drop_suffix _ _) ?_
    rw [List.length_drop]
    omega

theorem pieces_cases (pattern : Text) : ∃ first, pattern.splitOn '*' = [first] ∨
    ∃ middle last, pattern.splitOn '*' = first :: (middle ++ [last]) := by
  obtain ⟨first, pieces, hpieces⟩ := List.exists_cons_of_ne_nil (splitOn_ne_nil '*' pattern)
  rw [hpieces]
  rcases List.eq_nil_or_concat pieces with rfl | ⟨middle, last, rfl⟩
  · exact ⟨first, .inl rfl⟩
  · exact ⟨first, .inr ⟨middle, last, by rw [List.concat_eq_append]⟩⟩

section

variable {pattern target first last : Text} {middle : List Text}

theorem matches_single
    (hpieces : (if pattern.getLast? =
      some '$' then pattern.dropLast else pattern).splitOn '*' = [first]) :
    robotsPatternMatches pattern target ↔
      first <+: target ∧ (pattern.getLast? = some '$' → first.length = target.length) := by
  rw [robotsPatternMatches]
  simp only [hpieces, List.headD_cons, List.isPrefixOf_iff_prefix]
  by_cases hfirst : first <+: target
  · by_cases hanchored : pattern.getLast? = some '$' <;> simp [hfirst, hanchored, findPieces]
  · simp [hfirst]

theorem matches_pieces
    (hpieces : (if pattern.getLast? = some '$' then pattern.dropLast else pattern).splitOn '*' =
      first :: (middle ++ [last])) :
    robotsPatternMatches pattern target ↔
      first <+: target ∧ ∃ position, findPieces target middle first.length = some position ∧
        if pattern.getLast? = some '$' then last <:+ target.drop position
        else ∃ place, findFrom last target position = some place := by
  have hmiddle : (middle ++ [last]).dropLast = middle := List.dropLast_concat
  have hlast : (first :: (middle ++ [last])).getLastD [] = last := by
    rw [← List.cons_append, List.getLastD_concat]
  rw [robotsPatternMatches]
  simp only [hpieces, List.headD_cons, List.isPrefixOf_iff_prefix, List.tail_cons, hmiddle, hlast]
  by_cases hfirst : first <+: target
  · cases hfind : findPieces target middle first.length with
    | none => simp [hfirst]
    | some position =>
        have hle := findPieces_le hfirst.length_le hfind
        by_cases hanchored : pattern.getLast? = some '$'
        · simp [hfirst, hanchored, suffix_drop_iff hle, List.isSuffixOf_iff_suffix]
        · simp [hfirst, hanchored, Option.isSome_iff_exists]
  · simp [hfirst]

end

/-- A piece that is found somewhere, as a final piece. -/
theorem after_found (last target : Text) (position : ℕ) :
    After (fun rest => ([] : Text) <:+ rest) [last] (target.drop position) ↔
      ∃ place, findFrom last target position = some place := by
  rw [findFrom]
  cases hfind : find last (target.drop position) with
  | none =>
      refine iff_of_false (not_after_cons_of_find hfind) ?_
      rintro ⟨place, hplace⟩
      cases hplace
  | some index =>
      rw [after_cons_of_find (fun _ _ => List.nil_suffix) hfind]
      simp [After]

/-- The matcher finds a match exactly when there is one. -/
theorem robotsPatternMatches_iff (pattern target : Text) :
    robotsPatternMatches pattern target ↔ RobotsMatches pattern target := by
  rw [RobotsMatches]
  have hsuffix : ∀ last : Text, ∀ {text text' : Text}, text <:+ text' → last <:+ text →
      last <:+ text' :=
    fun _ _ _ h hlast => hlast.trans h
  have hstart : ∀ first : Text, ∀ P : Text → Prop,
      (first <+: target ∧ P (target.drop first.length)) ↔
      ∃ rest, target = first ++ rest ∧ P rest := by
    intro first P
    constructor
    · rintro ⟨⟨rest, rfl⟩, hrest⟩
      rw [List.drop_left] at hrest
      exact ⟨rest, rfl, hrest⟩
    · rintro ⟨rest, rfl, hrest⟩
      rw [List.drop_left]
      exact ⟨List.prefix_append _ _, hrest⟩
  by_cases hanchored : pattern.getLast? = some '$'
  · rw [if_pos hanchored, expands_iff_interleaves]
    obtain ⟨first, hpieces | ⟨middle, last, hpieces⟩⟩ := pieces_cases pattern.dropLast
    · rw [hpieces, interleaves_singleton, matches_single (by rw [if_pos hanchored, hpieces])]
      constructor
      · rintro ⟨hfirst, hlength⟩
        exact (hfirst.eq_of_length (hlength hanchored)).symm
      · rintro rfl
        exact ⟨List.prefix_rfl, fun _ => rfl⟩
    · rw [hpieces, interleaves_iff_after, matches_pieces (by rw [if_pos hanchored, hpieces]),
        ← hstart, findPieces_iff (hsuffix last)]
      simp only [if_pos hanchored]
  · rw [if_neg hanchored, ← expands_append_wild, expands_iff_interleaves, splitOn_append_wild]
    obtain ⟨first, hpieces | ⟨middle, last, hpieces⟩⟩ := pieces_cases pattern
    · rw [hpieces, List.singleton_append, ← List.nil_append [([] : Text)], interleaves_iff_after,
        matches_single (by rw [if_neg hanchored, hpieces]), ← hstart]
      simp [After, hanchored]
    · rw [hpieces, List.cons_append, interleaves_iff_after,
        matches_pieces (by rw [if_neg hanchored, hpieces]), ← hstart]
      simp only [after_append, if_neg hanchored]
      rw [findPieces_iff fun h => After.of_suffix (hsuffix []) h]
      simp only [after_found]

/-! ### Groups -/

def Directive.isRule : Directive → Bool
  | .userAgent _ => false
  | .rule _ _ => true

/-- User-agent lines and the rules under them. -/
structure RobotsGroup where
  agents : List Text
  rules : List RobotsRule

def RobotsGroup.directives (group : RobotsGroup) : List Directive :=
  group.agents.map .userAgent ++ group.rules.map fun rule => .rule rule.1 rule.2

/-- The directives are rules before any user-agent line, which are of no group, and then groups; a
user-agent line after a rule starts the next one. -/
structure GroupsOf (directives : List Directive) (leading : List RobotsRule)
    (groups : List RobotsGroup) : Prop where
  directives : directives = (leading.map fun rule => .rule rule.1 rule.2) ++ groups.flatMap
    RobotsGroup.directives
  agents : ∀ group ∈ groups, group.agents ≠ []
  rules : ∀ group ∈ groups.dropLast, group.rules ≠ []

/-- The rules that match something, with their patterns in one form. -/
def patterns (rules : List RobotsRule) : List RobotsRule :=
  (rules.filter fun rule => rule.2 ≠ []).map fun rule => (rule.1, robotsNormalise rule.2)

/-- The file is within the work bounds. -/
def WithinBounds (directives : List Directive) : Prop :=
  directives.countP Directive.isRule ≤ robotsMaxRules ∧
    ∀ allow value, Directive.rule allow value ∈ directives → value.length ≤ robotsMaxRuleChars

/-- Every list of directives has its groups. -/
theorem exists_groupsOf (directives : List Directive) : ∃ leading groups,
    GroupsOf directives leading groups := by
  induction directives using List.reverseRecOn with
  | nil =>
      exact ⟨[], [], rfl, fun _ h => (List.not_mem_nil h).elim,
        fun _ h => (List.not_mem_nil h).elim⟩
  | append_singleton directives directive ih =>
      obtain ⟨leading, groups, rfl, hagents, hrules⟩ := ih
      rcases List.eq_nil_or_concat groups with rfl | ⟨before, last, rfl⟩
      · cases directive with
        | userAgent value =>
            refine ⟨leading, [⟨[value], []⟩], by simp [RobotsGroup.directives], ?_, by simp⟩
            intro group hgroup
            rw [List.mem_singleton.mp hgroup]
            exact List.cons_ne_nil _ _
        | rule allow value => exact ⟨leading ++ [(allow, value)], [], by simp, hagents, hrules⟩
      · rw [List.concat_eq_append] at hagents hrules ⊢
        rw [List.dropLast_concat] at hrules
        have hlast := hagents last (by simp)
        cases directive with
        | userAgent value =>
            by_cases hempty : last.rules = []
            · refine ⟨leading, before ++ [⟨last.agents ++ [value], []⟩], ?_, ?_, ?_⟩
              · simp [RobotsGroup.directives, hempty]
              · intro group hgroup
                rcases List.mem_append.mp hgroup with hgroup | hgroup
                · exact hagents group (List.mem_append_left _ hgroup)
                · rw [List.mem_singleton.mp hgroup]
                  simp
              · rwa [List.dropLast_concat]
            · refine ⟨leading, before ++ [last] ++ [⟨[value], []⟩], ?_, ?_, ?_⟩
              · simp [RobotsGroup.directives]
              · intro group hgroup
                rcases List.mem_append.mp hgroup with hgroup | hgroup
                · exact hagents group hgroup
                · rw [List.mem_singleton.mp hgroup]
                  exact List.cons_ne_nil _ _
              · rw [List.dropLast_concat]
                intro group hgroup
                rcases List.mem_append.mp hgroup with hgroup | hgroup
                · exact hrules group hgroup
                · rwa [List.mem_singleton.mp hgroup]
        | rule allow value =>
            refine ⟨leading, before ++ [⟨last.agents, last.rules ++ [(allow, value)]⟩], ?_, ?_, ?_⟩
            · simp [RobotsGroup.directives]
            · intro group hgroup
              rcases List.mem_append.mp hgroup with hgroup | hgroup
              · exact hagents group (List.mem_append_left _ hgroup)
              · rwa [List.mem_singleton.mp hgroup]
            · rwa [List.dropLast_concat]

section

variable (t : TextTables) (token : Text)

/-- The directives of a file. -/
def fileDirectives (body : Text) : List Directive := (robotsLines body).filterMap (directive t)

/-- A user-agent line of the group is the name, in lower case. -/
def RobotsGroup.names (name : Text) (group : RobotsGroup) : Bool := name ∈ group.agents.map t.lower

/-- The rules of the groups of a name, merged. -/
def mergedRules (name : Text) (groups : List RobotsGroup) : List RobotsRule :=
  (groups.filter (RobotsGroup.names t name)).flatMap fun group => patterns group.rules

/-- The rules that apply: those of the token's own groups, else those of the `*` groups. -/
def applicableRules (groups : List RobotsGroup) : List RobotsRule :=
  if groups.any (RobotsGroup.names t token) then mergedRules t token groups
  else mergedRules t ['*'] groups

/-! ### The loop over the lines -/

/-- A directive within the bounds. -/
def nextState (state : RobotsState) : Directive → RobotsState
  | .userAgent value =>
      let agents := t.lower value :: if state.inRules then [] else state.agents
      { state with
        agents := agents
        inRules := false
        ownSeen := state.ownSeen || decide (token ∈ agents) }
  | .rule allow value =>
      { state with
        inRules := true
        ruleCount := state.ruleCount + 1
        own := if token ∈ state.agents then state.own ++ patterns [(allow, value)] else state.own
        star := if ['*'] ∈ state.agents then state.star
          ++ patterns [(allow, value)] else state.star }

theorem robotsStep_userAgent (state : RobotsState) (value : Text) :
    robotsStep t token state (.userAgent value) = .ok (nextState t token state (.userAgent value)) := rfl

theorem robotsStep_rule (state : RobotsState) (allow : Bool) (value : Text) :
    robotsStep t token state (.rule allow value) =
      if robotsMaxRules < state.ruleCount + 1 ∨ robotsMaxRuleChars < value.length then .error .tooLarge
      else .ok (nextState t token state (.rule allow value)) := by
  have hpatterns : patterns [(allow, value)] =
      if value ≠ [] then [(allow, robotsNormalise value)] else [] := by
    rw [patterns, List.filter_singleton]
    by_cases hvalue : value = [] <;> simp [hvalue]
  rw [robotsStep, nextState, hpatterns]

/-- Lines that say nothing are passed over. -/
theorem foldlM_robotsLine (lines : List Text) (state : RobotsState) :
    lines.foldlM (robotsLine t token) state =
      (lines.filterMap (directive t)).foldlM (robotsStep t token) state := by
  induction lines generalizing state with
  | nil => rfl
  | cons line lines ih =>
      rw [List.foldlM_cons, robotsLine]
      cases hline : directive t line with
      | none =>
          rw [List.filterMap_cons_none hline]
          exact ih state
      | some next =>
          rw [List.filterMap_cons_some hline, List.foldlM_cons]
          apply congrArg (robotsStep t token state next >>= ·)
          funext state'
          exact ih state'

theorem foldlM_within {directives : List Directive} {state : RobotsState}
    (hcount : state.ruleCount + directives.countP Directive.isRule ≤ robotsMaxRules)
    (hlength : ∀ allow value,
      Directive.rule allow value ∈ directives → value.length ≤ robotsMaxRuleChars) :
    directives.foldlM (robotsStep t token) state =
      .ok (directives.foldl (nextState t token) state) := by
  induction directives generalizing state with
  | nil => rfl
  | cons directive directives ih =>
      have hrest : ∀ allow value, Directive.rule allow value ∈ directives →
          value.length ≤ robotsMaxRuleChars :=
        fun allow value hmem => hlength allow value (List.mem_cons_of_mem _ hmem)
      rw [List.foldlM_cons, List.foldl_cons]
      cases directive with
      | userAgent value =>
          rw [robotsStep_userAgent]
          exact ih hcount hrest
      | rule allow value =>
          rw [List.countP_cons_of_pos rfl] at hcount
          have hvalue := hlength allow value List.mem_cons_self
          rw [robotsStep_rule, if_neg (by omega)]
          refine ih ?_ hrest
          show state.ruleCount + 1 + _ ≤ _
          omega

theorem foldlM_over {directives : List Directive} {state : RobotsState}
    (h : state.ruleCount + directives.countP Directive.isRule ≤ robotsMaxRules →
      ∃ allow value, Directive.rule allow value ∈ directives ∧ robotsMaxRuleChars < value.length)
    (hcount : state.ruleCount ≤ robotsMaxRules) :
    directives.foldlM (robotsStep t token) state = .error .tooLarge := by
  induction directives generalizing state with
  | nil =>
      obtain ⟨_, _, hmem, -⟩ := h (by simpa using hcount)
      cases hmem
  | cons directive directives ih =>
      rw [List.foldlM_cons]
      cases directive with
      | userAgent value =>
          rw [robotsStep_userAgent]
          refine ih (fun hwithin => ?_) hcount
          obtain ⟨allow, value', hmem, hlong⟩ :=
            h (by rwa [List.countP_cons_of_neg (by simp [Directive.isRule])])
          rcases List.mem_cons.mp hmem with heq | hmem
          · cases heq
          · exact ⟨allow, value', hmem, hlong⟩
      | rule allow value =>
          rw [robotsStep_rule]
          split_ifs with hbad
          · rfl
          · obtain ⟨hroom, hshort⟩ := not_or.mp hbad
            refine ih (fun hwithin => ?_) (not_lt.mp hroom)
            have hwithin' : state.ruleCount + 1 + directives.countP Directive.isRule
                ≤ robotsMaxRules := hwithin
            obtain ⟨allow', value', hmem, hlong⟩ := h (by
              rw [List.countP_cons_of_pos rfl]
              omega)
            rcases List.mem_cons.mp hmem with heq | hmem
            · cases heq
              exact absurd hlong hshort
            · exact ⟨allow', value', hmem, hlong⟩

/-! ### The loop over the groups -/

theorem foldl_agents {state : RobotsState} (hagents : state.agents = [])
    (hrules : state.inRules = false) (agents : List Text) :
    (agents.map Directive.userAgent).foldl (nextState t token) state =
      { state with
        agents := (agents.map t.lower).reverse
        ownSeen := state.ownSeen || decide (token ∈ agents.map t.lower) } := by
  induction agents using List.reverseRecOn with
  | nil =>
      obtain ⟨own, star, ownSeen, stateAgents, inRules, ruleCount⟩ := state
      cases hagents
      simp
  | append_singleton agents agent ih =>
      rw [List.map_append, List.foldl_append, ih, List.map_append]
      simp only [List.map_singleton, List.foldl_cons, List.foldl_nil, nextState, hrules,
        List.reverse_append, List.reverse_singleton, List.singleton_append, Bool.false_eq_true,
        if_false]
      congr 1
      simp only [List.mem_cons, List.mem_reverse, List.mem_append, Bool.or_assoc]
      congr 1
      by_cases hmem : token ∈ agents.map t.lower <;> by_cases hsame : token = t.lower agent
        <;> simp [hmem, hsame]

/-- The first user-agent line of a group forgets the agents of the group before. -/
theorem foldl_agents_reset (state : RobotsState) (agent : Text) (agents : List Text)
    (hfresh : state.inRules = true ∨ state.agents = []) :
    ((agent :: agents).map Directive.userAgent).foldl (nextState t token) state =
      ((agent :: agents).map Directive.userAgent).foldl (nextState t token)
        { state with agents := [], inRules := false } := by
  rw [List.map_cons, List.foldl_cons, List.foldl_cons]
  congr 1
  rcases hfresh with hrules | hagents
  · simp [nextState, hrules]
  · simp [nextState, hagents]

theorem foldl_rules (state : RobotsState) (rules : List RobotsRule) :
    (rules.map fun rule => Directive.rule rule.1 rule.2).foldl (nextState t token) state =
      { state with
        inRules := state.inRules || decide (rules ≠ [])
        ruleCount := state.ruleCount + rules.length
        own := if token ∈ state.agents then state.own ++ patterns rules else state.own
        star := if ['*'] ∈ state.agents then state.star ++ patterns rules else state.star } := by
  induction rules generalizing state with
  | nil => simp [patterns]
  | cons rule rules ih =>
      have hpatterns : patterns (rule :: rules) = patterns [rule] ++ patterns rules := by
        rw [patterns, patterns, patterns, ← List.map_append, ← List.filter_append,
          List.singleton_append]
      rw [List.map_cons, List.foldl_cons, ih, hpatterns]
      simp only [nextState, List.length_cons]
      congr 1
      · split_ifs <;> simp
      · split_ifs <;> simp
      · simp
      · omega

/-- A group adds its rules to those of the names that it names. -/
theorem foldl_group {state : RobotsState} (hfresh : state.inRules = true ∨ state.agents = [])
    {group : RobotsGroup} (hagents : group.agents ≠ []) :
    let state' := group.directives.foldl (nextState t token) state
    state'.own = (if group.names t token then state.own ++ patterns group.rules else state.own) ∧
      state'.star =
        (if group.names t ['*'] then state.star ++ patterns group.rules else state.star) ∧
      state'.ownSeen = (state.ownSeen || group.names t token) ∧
      (group.rules ≠ [] → state'.inRules = true) := by
  obtain ⟨agent, agents, hcons⟩ := List.exists_cons_of_ne_nil hagents
  have hrun : group.directives.foldl (nextState t token) state =
      (group.rules.map fun rule => Directive.rule rule.1 rule.2).foldl (nextState t token)
        { state with
          agents := (group.agents.map t.lower).reverse
          inRules := false
          ownSeen := state.ownSeen || decide (token ∈ group.agents.map t.lower) } := by
    rw [RobotsGroup.directives, List.foldl_append, hcons,
      foldl_agents_reset t token state agent agents hfresh, foldl_agents t token rfl rfl]
  intro state'
  rw [show state' = _ from hrun, foldl_rules]
  refine ⟨?_, ?_, ?_, fun hrules => ?_⟩
  · simp [RobotsGroup.names]
  · simp [RobotsGroup.names]
  · simp [RobotsGroup.names]
  · simp [hrules]

theorem mergedRules_cons (name : Text) (group : RobotsGroup) (groups : List RobotsGroup) :
    mergedRules t name (group :: groups) =
      (if group.names t name then patterns group.rules else []) ++ mergedRules t name groups := by
  rw [mergedRules, List.filter_cons]
  split_ifs <;> rfl

/-- The loop collects the rules of each name, group by group. -/
theorem foldl_groups {state : RobotsState} {groups : List RobotsGroup}
    (hfresh : groups ≠ [] → state.inRules = true ∨ state.agents = [])
    (hagents : ∀ group ∈ groups, group.agents ≠ [])
    (hrules : ∀ group ∈ groups.dropLast, group.rules ≠ []) :
    let state' := (groups.flatMap RobotsGroup.directives).foldl (nextState t token) state
    state'.own = state.own ++ mergedRules t token groups ∧
    state'.star = state.star ++ mergedRules t ['*'] groups ∧
      state'.ownSeen = (state.ownSeen || groups.any (RobotsGroup.names t token)) := by
  induction groups generalizing state with
  | nil => simp [mergedRules]
  | cons group groups ih =>
      obtain ⟨hown, hstar, hseen, hin⟩ :=
        foldl_group t token (hfresh (List.cons_ne_nil _ _)) (hagents group List.mem_cons_self)
      have happend : ∀ (before rules : List RobotsRule) (named : Bool),
          (if named then before ++ rules else before) = before ++ if named then rules else [] := by
        intro before rules named
        cases named <;> simp
      have hnext : groups ≠ [] →
          (group.directives.foldl (nextState t token) state).inRules = true := by
        intro hne
        refine hin (hrules group ?_)
        rw [List.dropLast_cons_of_ne_nil hne]
        exact List.mem_cons_self
      have hlater : ∀ other ∈ groups.dropLast, other.rules ≠ [] := by
        intro other hother
        refine hrules other ?_
        rw [List.dropLast_cons_of_ne_nil (fun hnil => by rw [hnil] at hother; cases hother)]
        exact List.mem_cons_of_mem _ hother
      obtain ⟨hown', hstar', hseen'⟩ := ih (fun hne => .inl (hnext hne))
        (fun other hother => hagents other (List.mem_cons_of_mem _ hother)) hlater
      dsimp only
      rw [List.flatMap_cons, List.foldl_append, hown', hstar', hseen', hown, hstar, hseen,
        mergedRules_cons, mergedRules_cons, happend, happend]
      simp [List.any_cons, Bool.or_assoc]

/-- The rules that a file gives a token: none over the bounds, else those of the groups that
apply. -/
theorem robotsRules_eq {body : Text} {leading : List RobotsRule} {groups : List RobotsGroup}
    (hgroups : GroupsOf (fileDirectives t body) leading groups)
    (hwithin : WithinBounds (fileDirectives t body)) :
    robotsRules t body token = .ok (applicableRules t token groups) := by
  have hloop : (robotsLines body).foldlM (robotsLine t token) .start =
      .ok ((fileDirectives t body).foldl (nextState t token) .start) := by
    rw [foldlM_robotsLine]
    refine foldlM_within t token ?_ hwithin.2
    rw [show RobotsState.start.ruleCount = 0 from rfl, zero_add]
    exact hwithin.1
  have hstart : (RobotsState.start).agents = [] := rfl
  have hleading := foldl_rules t token .start leading
  have hfresh : ((leading.map fun rule => Directive.rule rule.1 rule.2).foldl
      (nextState t token) .start).inRules = true ∨
      ((leading.map fun rule => Directive.rule rule.1 rule.2).foldl
        (nextState t token) .start).agents = [] := by
    rw [hleading]
    exact .inr rfl
  obtain ⟨hown, hstar, hseen⟩ := foldl_groups t token (fun _ => hfresh) hgroups.agents hgroups.rules
  rw [← List.foldl_append, ← hgroups.directives] at hown hstar hseen
  rw [hleading] at hown hstar hseen
  rw [robotsRules, hloop]
  show Except.ok (if _ then _ else _) = _
  rw [hown, hstar, hseen, applicableRules]
  simp [RobotsState.start]

theorem robotsRules_over {body : Text} (hover : ¬WithinBounds (fileDirectives t body)) :
    robotsRules t body token = .error .tooLarge := by
  have hloop : (robotsLines body).foldlM (robotsLine t token) .start = .error .tooLarge := by
    rw [foldlM_robotsLine]
    refine foldlM_over t token (fun hcount => ?_) (Nat.zero_le _)
    by_contra hnone
    rw [show RobotsState.start.ruleCount = 0 from rfl, zero_add] at hcount
    refine hover ⟨hcount, fun allow value hmem => ?_⟩
    by_contra hlong
    exact hnone ⟨allow, value, hmem, not_le.mp hlong⟩
  rw [robotsRules, hloop]
  rfl

end

/-! ### The longest rule -/

/-- The rule matches the target, no matching rule is longer, and none of its length is an Allow. -/
def RefusedBy (target : Text) (rules : List RobotsRule) (rule : RobotsRule) : Prop :=
  rule ∈ rules ∧ rule.1 = false ∧ RobotsMatches rule.2 target ∧
    ∀ other ∈ rules, RobotsMatches other.2 target → other.2.length ≤ rule.2.length ∧
      (other.1 = true → other.2.length ≠ rule.2.length)

/-- The best pair is that of a matching rule, or the start, and none is above it. -/
theorem bestRule_spec (target : Text) (rules : List RobotsRule) (start : Best) :
    let best := rules.foldl (fun best rule =>
      if robotsPatternMatches rule.2 target then max best
        (toLex ((rule.2.length : ℤ), rule.1)) else best) start
    (best = start ∨ ∃ rule ∈ rules,
      robotsPatternMatches rule.2 target ∧ best = toLex ((rule.2.length : ℤ), rule.1)) ∧
      start ≤ best ∧ ∀ rule ∈ rules, robotsPatternMatches rule.2 target →
        toLex ((rule.2.length : ℤ), rule.1) ≤ best := by
  induction rules generalizing start with
  | nil => exact ⟨.inl rfl, le_rfl, fun _ h => (List.not_mem_nil h).elim⟩
  | cons rule rules ih =>
      dsimp only
      rw [List.foldl_cons]
      generalize hnext : (if robotsPatternMatches rule.2 target then max start
        (toLex ((rule.2.length : ℤ), rule.1))
        else start) = next
      obtain ⟨hfrom, hge, hall⟩ := ih next
      have hstart : start ≤ next := by
        rw [← hnext]
        split_ifs
        · exact le_max_left _ _
        · exact le_rfl
      refine ⟨?_, hstart.trans hge, fun other hother hmatches => ?_⟩
      · rcases hfrom with hsame | ⟨other, hother, hmatches, heq⟩
        · by_cases hmatches : robotsPatternMatches rule.2 target
          · rw [if_pos hmatches] at hnext
            rcases max_choice start (toLex ((rule.2.length : ℤ), rule.1)) with hmax | hmax
            · exact .inl (hsame.trans (hnext.symm.trans hmax))
            · exact .inr ⟨rule, List.mem_cons_self, hmatches, hsame.trans (hnext.symm.trans hmax)⟩
          · rw [if_neg hmatches] at hnext
            exact .inl (hsame.trans hnext.symm)
        · exact .inr ⟨other, List.mem_cons_of_mem _ hother, hmatches, heq⟩
      · rcases List.mem_cons.mp hother with rfl | hother
        · refine le_trans ?_ hge
          rw [← hnext, if_pos hmatches]
          exact le_max_right _ _
        · exact hall other hother hmatches

/-- The file refuses exactly when its longest matching rule is a Disallow without an Allow of its
length. -/
theorem bestRule_refuses (target : Text) (rules : List RobotsRule) :
    (ofLex (bestRule target rules)).2 = false ↔ ∃ rule, RefusedBy target rules rule := by
  obtain ⟨hfrom, hge, hall⟩ : (bestRule target rules = toLex (-1, true) ∨ ∃ rule ∈ rules,
        robotsPatternMatches rule.2 target ∧
          bestRule target rules = toLex ((rule.2.length : ℤ), rule.1)) ∧
      toLex (-1, true) ≤ bestRule target rules ∧ ∀ rule ∈ rules,
        robotsPatternMatches rule.2 target →
        toLex ((rule.2.length : ℤ), rule.1) ≤ bestRule target rules :=
    bestRule_spec target rules (toLex (-1, true))
  constructor
  · intro hrefuses
    rcases hfrom with hstart | ⟨rule, hmem, hmatches, hbest⟩
    · rw [hstart] at hrefuses
      cases hrefuses
    · have hallow : rule.1 = false := by
        rw [hbest] at hrefuses
        exact hrefuses
      refine ⟨rule, hmem, hallow, (robotsPatternMatches_iff _ _).mp hmatches,
        fun other hother hmatches' => ?_⟩
      have hle := hall other hother ((robotsPatternMatches_iff _ _).mpr hmatches')
      rw [hbest, Prod.Lex.toLex_le_toLex, hallow] at hle
      rcases hle with hlt | ⟨heq, hallow'⟩
      · have hlt : (other.2.length : ℤ) < rule.2.length := hlt
        exact ⟨by omega, fun _ => by omega⟩
      · have heq : (other.2.length : ℤ) = rule.2.length := heq
        refine ⟨by omega, fun htrue => ?_⟩
        have hallow' : other.1 ≤ false := hallow'
        rw [htrue] at hallow'
        exact absurd hallow' (by decide)
  · rintro ⟨rule, hmem, hallow, hmatches, hlongest⟩
    have hle := hall rule hmem ((robotsPatternMatches_iff _ _).mpr hmatches)
    rcases hfrom with hstart | ⟨best, hmem', hmatches', hbest⟩
    · rw [hstart, Prod.Lex.toLex_le_toLex] at hle
      rcases hle with hlt | ⟨heq, -⟩
      · have hlt : (rule.2.length : ℤ) < -1 := hlt
        omega
      · have heq : (rule.2.length : ℤ) = -1 := heq
        omega
    · obtain ⟨hshorter, htie⟩ := hlongest best hmem' ((robotsPatternMatches_iff _ _).mp hmatches')
      rw [hbest, Prod.Lex.toLex_le_toLex] at hle
      rw [hbest]
      show best.1 = false
      by_contra htrue
      have hne := htie (by simpa using htrue)
      rcases hle with hlt | ⟨heq, -⟩
      · have hlt : (rule.2.length : ℤ) < best.2.length := hlt
        omega
      · have heq : (rule.2.length : ℤ) = best.2.length := heq
        omega

/-- The matcher finds a match exactly when there is one; and a file that was read, for an address
that it is matched against, refuses exactly when it is within the work bounds and the longest
matching rule of the groups that apply is a Disallow without an Allow of its length. -/
theorem robots_matcher_exact (t : TextTables) (urlsplit : Text → Text × Text) :
    (∀ pattern target, robotsPatternMatches pattern target ↔ RobotsMatches pattern target) ∧
    ∀ (status : Option ℕ) (body : Option Text) (url userAgent : Text) (leading : List RobotsRule)
        (groups : List RobotsGroup),
      GroupsOf (fileDirectives t (body.getD [])) leading groups →
      (robotsVerdict t urlsplit status body url userAgent = .refused ↔
        (∃ read, status = some read ∧ 200 ≤ read ∧ read < 300) ∧
          (robotsTarget urlsplit url).length ≤ robotsMaxAddressChars ∧
          WithinBounds (fileDirectives t (body.getD [])) ∧
          ∃ rule, RefusedBy (robotsTarget urlsplit url)
            (applicableRules t (productToken t userAgent) groups) rule) := by
  refine ⟨robotsPatternMatches_iff, fun status body url userAgent leading groups hgroups => ?_⟩
  unfold robotsVerdict
  cases status with
  | none =>
      refine iff_of_false (by simp) ?_
      rintro ⟨⟨read, hread, -⟩, -⟩
      cases hread
  | some status =>
      dsimp only
      split_ifs with hlong hclient hother
      · refine iff_of_false (by simp) ?_
        rintro ⟨-, hshort, -⟩
        omega
      · refine iff_of_false (by simp) ?_
        rintro ⟨⟨read, hread, hlow, hhigh⟩, -⟩
        cases hread
        omega
      · by_cases hwithin : WithinBounds (fileDirectives t (body.getD []))
        · rw [robotsRules_eq t (productToken t userAgent) hgroups hwithin, ← bestRule_refuses]
          cases hallow : (ofLex (bestRule (robotsTarget urlsplit url)
              (applicableRules t (productToken t userAgent) groups))).2 with
          | true => simp [hallow]
          | false => simp [hallow, hwithin, hother, not_lt.mp hlong]
        · rw [robotsRules_over t (productToken t userAgent) hwithin]
          simp [hwithin]
      · refine iff_of_false (by simp) ?_
        rintro ⟨⟨read, hread, hlow, hhigh⟩, -⟩
        cases hread
        exact hother ⟨hlow, hhigh⟩

def sampleRobots : Text := "User-agent: *\nDisallow: /p\nAllow: /p/b*$ # one page\n".toList

/-- A page under a Disallow that no longer rule allows. -/
theorem robots_matcher_exact_sample :
    ∃ rule, RefusedBy "/p/a".toList
      (applicableRules TextTables.asciiTables "bot".toList [⟨["*".toList],
        [(false, "/p".toList), (true, "/p/b*$".toList)]⟩])
      rule := by
  have hgroups : GroupsOf (fileDirectives TextTables.asciiTables sampleRobots) []
      [⟨["*".toList], [(false, "/p".toList), (true, "/p/b*$".toList)]⟩] := by
    refine ⟨by decide +kernel, fun group hgroup => ?_, fun _ h => (List.not_mem_nil h).elim⟩
    rw [List.mem_singleton.mp hgroup]
    exact List.cons_ne_nil _ _
  have hrefused : robotsVerdict TextTables.asciiTables (fun _ => ("/p/a".toList, [])) (some 200)
      (some sampleRobots) []
      "Bot/1.0".toList = .refused := by decide +kernel
  have hexact := (robots_matcher_exact TextTables.asciiTables fun _ => ("/p/a".toList, [])).2
    (some 200) (some sampleRobots)
    [] "Bot/1.0".toList [] _ hgroups
  obtain ⟨-, -, -, hrule⟩ := hexact.mp hrefused
  have htarget : robotsTarget (fun _ => ("/p/a".toList, [])) [] = "/p/a".toList := by decide +kernel
  have htoken : productToken TextTables.asciiTables "Bot/1.0".toList = "bot".toList := by
    decide +kernel
  rw [htarget, htoken] at hrule
  exact hrule

end Quorum
