import Quorum.BaseScan

/-! Patterns with a wildcard. A text expands a pattern when each wildcard is replaced by some text;
it does so exactly when the pieces between the wildcards are found in it from left to right, each at
its first place after the one before. -/

namespace Quorum

namespace Glob

variable {α : Type*} {wild : α}

/-- The text comes from the pattern by replacing each wildcard with some text. -/
inductive Expands (wild : α) : List α → List α → Prop
  | nil : Expands wild [] []
  | literal {letter : α} {pattern text : List α} (ne : letter ≠ wild)
      (rest : Expands wild pattern text) :
      Expands wild (letter :: pattern) (letter :: text)
  | star (gap : List α) {pattern text : List α} (rest : Expands wild pattern text) :
      Expands wild (wild :: pattern) (gap ++ text)

theorem expands_literal {letter : α} (hletter : letter ≠ wild) {pattern text : List α} :
    Expands wild (letter :: pattern) text ↔ ∃ rest, text = letter :: rest ∧
      Expands wild pattern rest := by
  constructor
  · intro h
    cases h with
    | literal _ rest => exact ⟨_, rfl, rest⟩
    | star gap _ => exact absurd rfl hletter
  · rintro ⟨rest, rfl, h⟩
    exact .literal hletter h

theorem expands_star {pattern text : List α} :
    Expands wild (wild :: pattern) text ↔ ∃ gap rest, text = gap ++ rest ∧
      Expands wild pattern rest := by
  constructor
  · intro h
    cases h with
    | literal hletter _ => exact absurd rfl hletter
    | star gap rest => exact ⟨gap, _, rfl, rest⟩
  · rintro ⟨gap, rest, rfl, h⟩
    exact .star gap h

/-- The letters of a pattern stand in what expands it. -/
theorem mem_of_expands {pattern text : List α} (h : Expands wild pattern text) {letter : α}
    (hmem : letter ∈ pattern) (hletter : letter ≠ wild) : letter ∈ text := by
  induction h with
  | nil => cases hmem
  | literal ne rest ih =>
      rcases List.mem_cons.mp hmem with rfl | hmem
      · exact List.mem_cons_self
      · exact List.mem_cons_of_mem _ (ih hmem)
  | star gap rest ih =>
      rcases List.mem_cons.mp hmem with rfl | hmem
      · exact absurd rfl hletter
      · exact List.mem_append_right _ (ih hmem)

/-- A prefix expands the pattern exactly when the text expands the pattern with a wildcard behind
it. -/
theorem expands_append_wild {pattern text : List α} :
    Expands wild (pattern ++ [wild]) text ↔ ∃ start, start <+: text ∧
      Expands wild pattern start := by
  constructor
  · intro h
    generalize hpattern : pattern ++ [wild] = whole at h
    induction h generalizing pattern with
    | nil => cases pattern <;> cases hpattern
    | literal ne rest ih =>
        cases pattern with
        | nil =>
            cases hpattern
            exact absurd rfl ne
        | cons letter pattern =>
            cases hpattern
            obtain ⟨start, hstart, hexpands⟩ := ih rfl
            exact ⟨_, (List.cons_prefix_cons).mpr ⟨rfl, hstart⟩, .literal ne hexpands⟩
    | star gap rest ih =>
        cases pattern with
        | nil => exact ⟨[], List.nil_prefix, .nil⟩
        | cons letter pattern =>
            cases hpattern
            obtain ⟨start, hstart, hexpands⟩ := ih rfl
            exact ⟨gap ++ start, (List.prefix_append_right_inj gap).mpr hstart, .star gap hexpands⟩
  · rintro ⟨start, ⟨rest, rfl⟩, hexpands⟩
    induction hexpands with
    | nil =>
        have hempty : Expands wild [] [] := .nil
        simpa using Expands.star rest hempty
    | literal ne _ ih => exact .literal ne ih
    | star gap _ ih =>
        rw [List.append_assoc]
        exact .star gap ih

/-! ### Pieces -/

/-- The pieces stand in the text from left to right, with gaps before each, and then the rest is
final. -/
def After (final : List α → Prop) : List (List α) → List α → Prop
  | [], text => final text
  | piece :: pieces, text => ∃ gap rest, text = gap ++ piece ++ rest ∧ After final pieces rest

/-- The text is the pieces with gaps between them. -/
def Interleaves : List (List α) → List α → Prop
  | [], text => text = []
  | piece :: pieces, text => ∃ rest, text = piece ++ rest ∧
      (pieces = [] ∧ rest = [] ∨ ∃ gap rest',
        rest = gap ++ rest' ∧ pieces ≠ [] ∧ Interleaves pieces rest')

theorem interleaves_cons_cons {piece next : List α} {pieces : List (List α)} {text : List α} :
    Interleaves (piece :: next :: pieces) text ↔
      ∃ gap rest, text = piece ++ (gap ++ rest) ∧ Interleaves (next :: pieces) rest := by
  rw [Interleaves]
  constructor
  · rintro ⟨rest, rfl, ⟨hnil, -⟩ | ⟨gap, rest', rfl, -, hrest⟩⟩
    · cases hnil
    · exact ⟨gap, rest', rfl, hrest⟩
  · rintro ⟨gap, rest, rfl, hrest⟩
    exact ⟨gap ++ rest, rfl, .inr ⟨gap, rest, rfl, List.cons_ne_nil _ _, hrest⟩⟩

theorem interleaves_singleton {piece text : List α} : Interleaves [piece] text ↔ text = piece := by
  simp [Interleaves]

/-- A letter in front of the first piece. -/
theorem interleaves_modifyHead {letter : α} {pieces : List (List α)} (hne : pieces ≠ [])
    {text : List α} :
    Interleaves (pieces.modifyHead (List.cons letter)) text ↔ ∃ rest, text = letter :: rest ∧
      Interleaves pieces rest := by
  cases pieces with
  | nil => exact absurd rfl hne
  | cons piece pieces =>
      rw [List.modifyHead_cons]
      cases pieces with
      | nil => simp [interleaves_singleton]
      | cons next pieces =>
          rw [interleaves_cons_cons]
          simp only [interleaves_cons_cons, List.cons_append]
          constructor
          · rintro ⟨gap, rest, rfl, hrest⟩
            exact ⟨_, rfl, gap, rest, rfl, hrest⟩
          · rintro ⟨_, rfl, gap, rest, rfl, hrest⟩
            exact ⟨gap, rest, rfl, hrest⟩

theorem splitOn_cons [DecidableEq α] (wild letter : α) (pattern : List α) :
    (letter :: pattern).splitOn wild =
      if letter = wild then [] :: pattern.splitOn wild
      else (pattern.splitOn wild).modifyHead (List.cons letter) := by
  rw [List.splitOn, List.splitOnP_cons_eq_if_modifyHead]
  simp only [beq_iff_eq]
  rfl

theorem splitOn_ne_nil [DecidableEq α] (wild : α) (pattern : List α) : pattern.splitOn wild ≠ [] :=
  List.splitOnP_ne_nil _ _

theorem expands_iff_interleaves [DecidableEq α] (pattern text : List α) :
    Expands wild pattern text ↔ Interleaves (pattern.splitOn wild) text := by
  induction pattern generalizing text with
  | nil =>
      rw [List.splitOn_nil, interleaves_singleton]
      constructor
      · intro h
        cases h
        rfl
      · rintro rfl
        exact .nil
  | cons letter pattern ih =>
      have hne := splitOn_ne_nil wild pattern
      rw [splitOn_cons]
      by_cases hwild : letter = wild
      · subst hwild
        rw [if_pos rfl]
        obtain ⟨piece, pieces, hpieces⟩ := List.exists_cons_of_ne_nil hne
        rw [hpieces, interleaves_cons_cons, ← hpieces]
        constructor
        · intro h
          cases h with
          | literal ne _ => exact absurd rfl ne
          | star gap rest => exact ⟨gap, _, rfl, (ih _).mp rest⟩
        · rintro ⟨gap, rest, rfl, hrest⟩
          exact .star gap ((ih rest).mpr hrest)
      · rw [if_neg hwild, interleaves_modifyHead hne]
        constructor
        · intro h
          cases h with
          | literal ne rest => exact ⟨_, rfl, (ih _).mp rest⟩
          | star gap rest => exact absurd rfl hwild
        · rintro ⟨rest, rfl, hrest⟩
          exact .literal hwild ((ih rest).mpr hrest)

theorem splitOn_append_wild [DecidableEq α] (pattern : List α) :
    (pattern ++ [wild]).splitOn wild = pattern.splitOn wild ++ [[]] := by
  induction pattern with
  | nil => simp [List.splitOn, List.splitOnP_cons_eq_if_modifyHead]
  | cons letter pattern ih =>
      rw [List.cons_append, splitOn_cons, splitOn_cons, ih]
      split_ifs
      · rfl
      · obtain ⟨piece, pieces, hpieces⟩ := List.exists_cons_of_ne_nil (splitOn_ne_nil wild pattern)
        rw [hpieces]
        rfl

/-- Pieces with gaps between them: the last one ends the text. -/
theorem after_suffix_iff (middle : List (List α)) (last text : List α) :
    After (fun rest => last <:+ rest) middle text ↔
      ∃ gap rest, text = gap ++ rest ∧ Interleaves (middle ++ [last]) rest := by
  induction middle generalizing text with
  | nil =>
      simp only [After, List.nil_append, interleaves_singleton, exists_eq_right]
      constructor
      · rintro ⟨gap, rfl⟩
        exact ⟨gap, rfl⟩
      · rintro ⟨gap, rfl⟩
        exact ⟨gap, rfl⟩
  | cons piece middle ih =>
      obtain ⟨next, pieces, hpieces⟩ : ∃ next pieces, middle ++ [last] = next :: pieces :=
        List.exists_cons_of_ne_nil (by simp)
      rw [After, List.cons_append, hpieces]
      constructor
      · rintro ⟨gap, rest, rfl, hrest⟩
        obtain ⟨gap', rest', rfl, hinter⟩ := (ih rest).mp hrest
        rw [hpieces] at hinter
        exact ⟨gap, piece ++ (gap' ++ rest'), List.append_assoc _ _ _,
          interleaves_cons_cons.mpr ⟨gap', rest', rfl, hinter⟩⟩
      · rintro ⟨gap, whole, rfl, hwhole⟩
        obtain ⟨gap', rest', rfl, hinter⟩ := interleaves_cons_cons.mp hwhole
        rw [← hpieces] at hinter
        exact ⟨gap, gap' ++ rest', (List.append_assoc _ _ _).symm,
          (ih _).mpr ⟨gap', rest', rfl, hinter⟩⟩

theorem interleaves_iff_after (first last : List α) (middle : List (List α)) (text : List α) :
    Interleaves (first :: (middle ++ [last])) text ↔
      ∃ rest, text = first ++ rest ∧ After (fun rest => last <:+ rest) middle rest := by
  obtain ⟨next, pieces, hpieces⟩ : ∃ next pieces, middle ++ [last] = next :: pieces :=
    List.exists_cons_of_ne_nil (by simp)
  rw [hpieces, interleaves_cons_cons, ← hpieces]
  constructor
  · rintro ⟨gap, rest, rfl, hrest⟩
    exact ⟨gap ++ rest, rfl, (after_suffix_iff middle last _).mpr ⟨gap, rest, rfl, hrest⟩⟩
  · rintro ⟨_, rfl, hafter⟩
    obtain ⟨gap, rest, rfl, hrest⟩ := (after_suffix_iff middle last _).mp hafter
    exact ⟨gap, rest, rfl, hrest⟩

/-! ### The first place of a piece -/

theorem after_append (final : List α → Prop) (pieces more : List (List α)) (text : List α) :
    After final (pieces ++ more) text ↔ After (After final more) pieces text := by
  induction pieces generalizing text with
  | nil => rfl
  | cons piece pieces ih =>
      rw [List.cons_append, After, After]
      simp only [ih]

/-- A longer text in front leaves room for the same pieces. -/
theorem After.of_suffix {final : List α → Prop}
    (hfinal : ∀ {text text' : List α}, text <:+ text' → final text → final text')
    {pieces : List (List α)} {text text' : List α} (hsuffix : text <:+ text')
    (h : After final pieces text) :
    After final pieces text' := by
  cases pieces with
  | nil => exact hfinal hsuffix h
  | cons piece pieces =>
      obtain ⟨before, rfl⟩ := hsuffix
      obtain ⟨gap, rest, rfl, hrest⟩ := h
      exact ⟨before ++ gap, rest, by simp, hrest⟩

variable [DecidableEq α]

/-- The pieces can be placed exactly when they can be with the first one at its first place. -/
theorem after_cons_of_find {final : List α → Prop}
    (hfinal : ∀ {text text' : List α}, text <:+ text' → final text → final text') {piece : List α}
    {pieces : List (List α)} {text : List α} {index : ℕ} (h : find piece text = some index) :
    After final (piece :: pieces) text ↔ After final pieces (text.drop (index + piece.length)) := by
  obtain ⟨hplace, hfirst⟩ := find_eq_some h
  constructor
  · rintro ⟨gap, rest, rfl, hrest⟩
    have hle : index ≤ gap.length := by
      by_contra hlt
      refine hfirst gap.length (not_le.mp hlt) ?_
      rw [List.append_assoc, List.drop_left]
      exact List.prefix_append _ _
    refine hrest.of_suffix hfinal ?_
    have hdrop : ((gap ++ piece ++ rest).drop (index + piece.length)).drop (gap.length - index) =
        rest := by
      have hsum : index + piece.length + (gap.length - index) = (gap ++ piece).length := by
        rw [List.length_append]
        omega
      rw [List.drop_drop, hsum, List.drop_left]
    have hsuffix :=
      List.drop_suffix (gap.length - index) ((gap ++ piece ++ rest).drop (index + piece.length))
    rw [hdrop] at hsuffix
    exact hsuffix
  · intro hrest
    obtain ⟨rest, hplace⟩ := hplace
    refine ⟨text.take index, rest, ?_, ?_⟩
    · rw [List.append_assoc, hplace, List.take_append_drop]
    · rw [← List.drop_drop, ← hplace, List.drop_left] at hrest
      exact hrest

theorem not_after_cons_of_find {final : List α → Prop} {piece : List α} {pieces : List (List α)}
    {text : List α} (h : find piece text = none) : ¬After final (piece :: pieces) text := by
  rintro ⟨gap, rest, heq, -⟩
  exact find_eq_none h gap rest heq

end Glob

end Quorum
