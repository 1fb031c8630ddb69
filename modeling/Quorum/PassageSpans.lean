import Quorum.SynthesisLength
import Mathlib.Data.List.TakeWhile

/-! The passages of a page (`evaluation`): its lines without the space around them, the long ones
cut at spaces and short neighbours joined, as positions in the text. -/

namespace Quorum

/-- `_PASSAGE_CHARS`. -/
def passageChars : ℕ := 500

/-- `text[start:stop]`. -/
def slice (text : Text) (start stop : ℕ) : Text := (text.take stop).drop start

/-- The lines of a text that are not empty, from a place on; `opened` is where the current one
began. -/
def lineSpansFrom : Option ℕ → ℕ → Text → List (ℕ × ℕ)
  | none, _, [] => []
  | some start, position, [] => [(start, position)]
  | opened, position, ch :: rest =>
      if ch = '\n' then
        match opened with
        | none => lineSpansFrom none (position + 1) rest
        | some start => (start, position) :: lineSpansFrom none (position + 1) rest
      else lineSpansFrom (some (opened.getD position)) (position + 1) rest

/-- The matches of `_PASSAGE_LINE`. -/
def lineSpans (text : Text) : List (ℕ × ℕ) := lineSpansFrom none 0 text

/-- `window.rfind(" ")`. -/
def rfindSpace (window : Text) : Option ℕ :=
  (window.reverse.findIdx? (· = ' ')).map (window.length - 1 - ·)

/-- Where a block is cut: at the last space that fits, or at the limit. -/
def cutOf (text : Text) (start : ℕ) : ℕ :=
  match rfindSpace (slice text start (start + passageChars + 1)) with
  | some (place + 1) => place + 1
  | _ => passageChars

theorem cutOf_pos (text : Text) (start : ℕ) : 0 < cutOf text start := by
  rw [cutOf]
  split
  · exact Nat.succ_pos _
  · decide

namespace TextTables

variable (p : TextTables)

/-- Where a stretch begins and ends without the space around it. -/
def stripSpan (text : Text) (start stop : ℕ) : ℕ × ℕ :=
  let first := start + ((slice text start stop).takeWhile p.isspace).length
  (first, first + ((slice text first stop).rdropWhile p.isspace).length)

/-- `_split_block`. Both inner loops end at a character of the block. -/
def splitBlock (text : Text) (start stop : ℕ) : List (ℕ × ℕ) :=
  if passageChars < stop - start then
    let cut := start + cutOf text start
    (start, start + ((slice text start cut).rdropWhile p.isspace).length)
      :: splitBlock text (cut + ((text.drop cut).takeWhile p.isspace).length) stop
  else [(start, stop)]
termination_by stop - start
decreasing_by
  have := cutOf_pos text start
  omega

/-- One line of the page: what is kept so far, and whether the last passage may be joined. -/
def addLine (text : Text) (kept : List (ℕ × ℕ) × Bool) (line : ℕ × ℕ) : List (ℕ × ℕ) × Bool :=
  let (start, stop) := p.stripSpan text line.1 line.2
  if start = stop then kept
  else if passageChars < stop - start then (kept.1 ++ p.splitBlock text start stop, false)
  else
    match kept.1.getLast? with
    | some last =>
        if kept.2 ∧ stop - last.1 ≤ passageChars then (kept.1.dropLast ++ [(last.1, stop)], true)
        else (kept.1 ++ [(start, stop)], true)
    | none => (kept.1 ++ [(start, stop)], true)

/-- `_passages`. -/
def passages (text : Text) : List (ℕ × ℕ) :=
  ((lineSpans text).foldl (p.addLine text) ([], false)).1

end TextTables

/-! ### Stretches in order -/

/-- The stretches are not empty, lie in this range and do not overlap. -/
def OrderedFrom (stop : ℕ) : ℕ → List (ℕ × ℕ) → Prop
  | _, [] => True
  | start, span :: rest =>
      start ≤ span.1 ∧ span.1 < span.2 ∧ span.2 ≤ stop ∧ OrderedFrom stop span.2 rest

section
variable {start start' stop stop' : ℕ} {spans others : List (ℕ × ℕ)}

theorem OrderedFrom.mono (h : OrderedFrom stop start spans) (hstart : start' ≤ start)
    (hstop : stop ≤ stop') :
    OrderedFrom stop' start' spans := by
  induction spans generalizing start start' with
  | nil => trivial
  | cons span rest ih => exact ⟨hstart.trans h.1, h.2.1, h.2.2.1.trans hstop, ih h.2.2.2 le_rfl⟩

theorem OrderedFrom.append {middle : ℕ} (h : OrderedFrom middle start spans)
    (hmiddle : start ≤ middle) (hrest : OrderedFrom stop middle others) (hstop : middle ≤ stop) :
    OrderedFrom stop start (spans ++ others) := by
  induction spans generalizing start with
  | nil => exact hrest.mono hmiddle le_rfl
  | cons span rest ih =>
      obtain ⟨hstart, hspan, hmid, hlater⟩ := h
      exact ⟨hstart, hspan, hmid.trans hstop, ih hlater hmid⟩

theorem OrderedFrom.singleton {span : ℕ × ℕ} (hstart : start ≤ span.1) (hspan : span.1 < span.2)
    (hstop : span.2 ≤ stop) : OrderedFrom stop start [span] := ⟨hstart, hspan, hstop, trivial⟩

/-- The last stretch may end later. -/
theorem OrderedFrom.stretch {last : ℕ × ℕ} (h : OrderedFrom stop start (spans ++ [last]))
    (hle : stop ≤ stop') :
    OrderedFrom stop' start (spans ++ [(last.1, stop')]) := by
  induction spans generalizing start with
  | nil =>
      obtain ⟨hstart, hspan, hstop, -⟩ := h
      exact ⟨hstart, by dsimp only; omega, le_rfl, trivial⟩
  | cons span rest ih => exact ⟨h.1, h.2.1, h.2.2.1.trans hle, ih h.2.2.2⟩

end

/-- The lines lie in the text in order. -/
theorem lineSpansFrom_ordered (text : Text) : ∀ (opened : Option ℕ) (position : ℕ),
    (∀ start ∈ opened, start < position) →
      OrderedFrom (position + text.length) (opened.getD position)
        (lineSpansFrom opened position text) := by
  induction text with
  | nil =>
      intro opened position hopened
      cases opened with
      | none => trivial
      | some start => exact .singleton le_rfl (hopened start rfl) le_rfl
  | cons ch rest ih =>
      intro opened position hopened
      have hlength : position + 1 + rest.length = position + (ch :: rest).length := by
        rw [List.length_cons]
        omega
      rw [← hlength]
      by_cases hch : ch = '\n'
      · have hnext := ih none (position + 1) fun start hstart => nomatch hstart
        cases opened with
        | none =>
            rw [lineSpansFrom, if_pos hch]
            exact hnext.mono (Nat.le_succ _) le_rfl
        | some start =>
            rw [lineSpansFrom, if_pos hch]
            exact ⟨le_rfl, hopened start rfl,
              by dsimp only; omega, hnext.mono (Nat.le_succ _) le_rfl⟩
      · have hstart : opened.getD position < position + 1 := by
          cases opened with
          | none => exact Nat.lt_succ_self _
          | some start => exact Nat.lt_succ_of_lt (hopened start rfl)
        have hnext := ih (some (opened.getD position)) (position + 1) fun start heq => by
          rwa [← Option.some.inj heq]
        cases opened <;> rw [lineSpansFrom, if_neg hch] <;> exact hnext

theorem lineSpans_ordered (text : Text) : OrderedFrom text.length 0 (lineSpans text) := by
  have h := lineSpansFrom_ordered text none 0 fun start hstart => nomatch hstart
  rwa [Nat.zero_add] at h

/-! ### The space around a stretch -/

theorem length_slice {text : Text} {start stop : ℕ} (hstop : stop ≤ text.length) :
    (slice text start stop).length = stop - start := by
  rw [slice, List.length_drop, List.length_take_of_le hstop]

theorem getElem?_slice {text : Text} {start stop index : ℕ} (h : start + index < stop) :
    (slice text start stop)[index]? = text[start + index]? := by
  rw [slice, List.getElem?_drop, List.getElem?_take_of_lt h]

section
variable {α : Type*} {p : α → Bool} {l : List α} {a : α} {k : ℕ}

theorem length_takeWhile_le (hget : l[k]? = some a) (ha : p a = false) :
    (l.takeWhile p).length ≤ k := by
  induction l generalizing k with
  | nil => exact Nat.zero_le _
  | cons first rest ih =>
      rw [List.takeWhile_cons]
      cases hfirst : p first with
      | false => exact Nat.zero_le _
      | true =>
          cases k with
          | zero =>
              obtain rfl : first = a := by simpa using hget
              rw [hfirst] at ha
              cases ha
          | succ k => exact Nat.succ_le_succ (ih (by simpa using hget))

theorem exists_after_takeWhile (h : (l.takeWhile p).length < l.length) :
    ∃ a, l[(l.takeWhile p).length]? = some a ∧ p a = false := by
  induction l with
  | nil => cases h
  | cons first rest ih =>
      rw [List.takeWhile_cons] at h ⊢
      cases hfirst : p first with
      | false => exact ⟨first, rfl, hfirst⟩
      | true =>
          rw [hfirst] at h
          exact ih (Nat.lt_of_succ_lt_succ h)

theorem lt_length_rdropWhile (hget : l[k]? = some a) (ha : p a = false) :
    k < (l.rdropWhile p).length := by
  by_contra hle
  have hsplit : l.rdropWhile p ++ l.rtakeWhile p = l := List.rdropWhile_append_rtakeWhile
  have hright : (l.rdropWhile p ++ l.rtakeWhile p)[k]?
      = (l.rtakeWhile p)[k - (l.rdropWhile p).length]? :=
    List.getElem?_append_right (not_lt.mp hle)
  rw [hsplit, hget] at hright
  have := List.mem_rtakeWhile_imp (List.mem_of_getElem? hright.symm)
  rw [ha] at this
  cases this

theorem exists_last_rdropWhile (h : 0 < (l.rdropWhile p).length) :
    ∃ a, l[(l.rdropWhile p).length - 1]? = some a ∧ p a = false := by
  have hne := List.ne_nil_of_length_pos h
  refine ⟨(l.rdropWhile p).getLast hne, ?_,
    Bool.eq_false_iff.mpr (List.rdropWhile_last_not p l hne)⟩
  have hlast : (l.rdropWhile p)[(l.rdropWhile p).length - 1]?
      = some ((l.rdropWhile p).getLast hne) := by
    rw [← List.getLast?_eq_getElem?, List.getLast?_eq_getLast_of_ne_nil hne]
  obtain ⟨rest, hrest⟩ := List.rdropWhile_prefix p l
  have hlast_lt : (l.rdropWhile p).length - 1 < (l.rdropWhile p).length := by omega
  have hleft : (l.rdropWhile p ++ rest)[(l.rdropWhile p).length - 1]?
      = (l.rdropWhile p)[(l.rdropWhile p).length - 1]? := List.getElem?_append_left hlast_lt
  rw [hrest, hlast] at hleft
  exact hleft

end

namespace TextTables

variable (p : TextTables) (text : Text)

/-- No space stands here. -/
def Solid (index : ℕ) : Prop := ∃ ch, text[index]? = some ch ∧ p.isspace ch = false

variable {p} {text} {start stop : ℕ}

/-- A stretch without the space around it lies in it, and begins and ends with no space. -/
theorem stripSpan_spec (hle : start ≤ stop) (hstop : stop ≤ text.length) :
    start ≤ (p.stripSpan text start stop).1
      ∧ (p.stripSpan text start stop).1 ≤ (p.stripSpan text start stop).2
      ∧ (p.stripSpan text start stop).2 ≤ stop
      ∧ ((p.stripSpan text start stop).1 ≠ (p.stripSpan text start stop).2 →
        p.Solid text (p.stripSpan text start stop).1
          ∧ p.Solid text ((p.stripSpan text start stop).2 - 1)) := by
  have hfirst := (List.takeWhile_prefix p.isspace (l := slice text start stop)).length_le
  rw [length_slice hstop] at hfirst
  have hsecond := (List.rdropWhile_prefix p.isspace
    (slice text (start + ((slice text start stop).takeWhile p.isspace).length) stop)).length_le
  rw [length_slice hstop] at hsecond
  rw [stripSpan]
  dsimp only
  refine ⟨Nat.le_add_right _ _, Nat.le_add_right _ _, by omega, fun hne => ⟨?_, ?_⟩⟩
  · have hshort : ((slice text start stop).takeWhile p.isspace).length < (slice
        text start stop).length := by
      rw [length_slice hstop]
      omega
    obtain ⟨ch, hget, hch⟩ := exists_after_takeWhile hshort
    rw [getElem?_slice (by omega)] at hget
    exact ⟨ch, hget, hch⟩
  · obtain ⟨ch, hget, hch⟩ := exists_last_rdropWhile (p := p.isspace)
      (l := slice text (start + ((slice text start stop).takeWhile p.isspace).length) stop)
        (by omega)
    rw [getElem?_slice (by omega)] at hget
    refine ⟨ch, ?_, hch⟩
    rw [← hget]
    congr 1
    omega

theorem cutOf_le (text : Text) (start : ℕ) : cutOf text start ≤ passageChars := by
  rw [cutOf]
  split
  · next place hplace =>
      obtain ⟨index, -, hindex⟩ := Option.map_eq_some_iff.mp hplace
      have hlength : (slice text start (start + passageChars + 1)).length ≤ passageChars + 1 := by
        rw [slice, List.length_drop, List.length_take]
        omega
      omega
  · exact le_rfl

/-- A block that begins and ends with no space is cut into stretches in order, within it. -/
theorem splitBlock_ordered (hlt : start < stop) (hstop : stop ≤ text.length)
    (hfirst : p.Solid text start) (hlast : p.Solid text (stop - 1)) :
    OrderedFrom stop start (p.splitBlock text start stop) := by
  induction hsize : stop - start using Nat.strong_induction_on generalizing start with
  | _ size ih =>
      rw [splitBlock]
      split_ifs with hlong
      swap
      · exact .singleton le_rfl hlt le_rfl
      have hpos := cutOf_pos text start
      have hcut := cutOf_le text start
      -- the piece keeps the block's first character
      have hpiece : 0 < ((slice text start (start + cutOf text start)).rdropWhile
          p.isspace).length := by
        obtain ⟨ch, hget, hch⟩ := hfirst
        refine lt_length_rdropWhile (a := ch) ?_ hch
        rw [getElem?_slice (by omega)]
        exact hget
      have hshort :=
        (List.rdropWhile_prefix p.isspace (slice text start (start + cutOf text start))).length_le
      rw [length_slice (by omega)] at hshort
      -- and the block's last character stands behind the cut
      have hnext : ((text.drop (start + cutOf text start)).takeWhile p.isspace).length
          ≤ stop - 1 - (start + cutOf text start) := by
        obtain ⟨ch, hget, hch⟩ := hlast
        refine length_takeWhile_le (a := ch) ?_ hch
        rw [List.getElem?_drop, ← hget]
        congr 1
        omega
      have hsolid : p.Solid text (start + cutOf text start
          + ((text.drop (start + cutOf text start)).takeWhile p.isspace).length) := by
        obtain ⟨ch, hget, hch⟩ := exists_after_takeWhile (p := p.isspace)
          (l := text.drop (start + cutOf text start)) (by rw [List.length_drop]; omega)
        rw [List.getElem?_drop] at hget
        exact ⟨ch, hget, hch⟩
      have hrest : OrderedFrom stop (start + cutOf text start
          + ((text.drop (start + cutOf text start)).takeWhile p.isspace).length)
            (p.splitBlock text (start
            + cutOf text start
              + ((text.drop (start + cutOf text start)).takeWhile p.isspace).length) stop) := by
        refine ih _ ?_ ?_ hsolid rfl <;> omega
      exact ⟨le_rfl,
        by dsimp only; omega, by dsimp only; omega, hrest.mono (by dsimp only; omega) le_rfl⟩

theorem addLine_ordered {middle : ℕ} {kept : List (ℕ × ℕ) × Bool} (h : OrderedFrom middle 0 kept.1)
    {line : ℕ × ℕ} (hmiddle : middle ≤ line.1) (hline : line.1 < line.2)
    (hstop : line.2 ≤ text.length) :
    OrderedFrom line.2 0 (p.addLine text kept line).1 := by
  obtain ⟨hfirst, hle, hlast, hsolid⟩ := stripSpan_spec (p := p) hline.le hstop
  rw [addLine]
  generalize p.stripSpan text line.1 line.2 = span at *
  obtain ⟨first, last⟩ := span
  dsimp only at *
  have hmore : ∀ {spans}, OrderedFrom last first spans → OrderedFrom line.2 0 (kept.1 ++ spans) :=
    fun hspans => h.append (Nat.zero_le _) (hspans.mono (hmiddle.trans hfirst) hlast) (by omega)
  split_ifs with hempty hlong
  · exact h.mono le_rfl (by omega)
  · obtain ⟨hsolidFirst, hsolidLast⟩ := hsolid hempty
    exact hmore (splitBlock_ordered (by omega) (by omega) hsolidFirst hsolidLast)
  · have halone : OrderedFrom line.2 0 (kept.1 ++ [(first, last)]) :=
      hmore (.singleton le_rfl (lt_of_le_of_ne hle hempty) le_rfl)
    cases hprevious : kept.1.getLast? with
    | none => exact halone
    | some previous =>
        dsimp only
        split_ifs with hjoin
        · obtain ⟨before, hbefore⟩ := List.getLast?_eq_some_iff.mp hprevious
          rw [hbefore] at h ⊢
          rw [List.dropLast_concat]
          exact (h.stretch (by omega : middle ≤ last)).mono le_rfl hlast
        · exact halone

/-- The passages of a page lie in it in order, none of them empty. -/
theorem passages_ordered (p : TextTables) (text : Text) :
    OrderedFrom text.length 0 (p.passages text) := by
  have hfold : ∀ (lines : List (ℕ × ℕ)) (middle : ℕ) (kept : List (ℕ × ℕ) × Bool),
      OrderedFrom middle 0 kept.1 → middle ≤ text.length → OrderedFrom text.length middle lines →
      OrderedFrom text.length 0 (lines.foldl (p.addLine text) kept).1 := by
    intro lines
    induction lines with
    | nil => exact fun middle kept hkept hmiddle _ => hkept.mono le_rfl hmiddle
    | cons line lines ih =>
        intro middle kept hkept hmiddle hlines
        obtain ⟨hstart, hline, hstop, hlater⟩ := hlines
        exact ih line.2 _ (addLine_ordered hkept hstart hline hstop) hstop hlater
  exact hfold (lineSpans text) 0 ([], false) trivial (Nat.zero_le _) (lineSpans_ordered text)

end TextTables

end Quorum
