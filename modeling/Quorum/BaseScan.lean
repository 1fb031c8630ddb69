import Mathlib.Data.List.Infix
import Mathlib.Data.List.GetD

/-! Searching a text for the words of a fixed list: the leftmost scan without overlaps, the walls no
occurrence crosses, and readings of a text in which a symbol stands for any number of letters. -/

namespace Quorum

section words
variable {α : Type*}

/-- What a check of each element finds holds of every element. -/
theorem forall_mem_of_all {p : α → Prop} [DecidablePred p] {l : List α}
    (h : (l.all fun a => decide (p a)) = true) : ∀ a ∈ l, p a :=
  fun a ha => of_decide_eq_true (List.all_eq_true.mp h a ha)

theorem heads_notMem_of_all [DecidableEq α] {words : List (List α)} {wall : List α}
    (h : (words.all fun word => word.head?.all fun letter => decide (letter ∉ wall)) = true) :
    ∀ word ∈ words, ∀ letter ∈ word.head?, letter ∉ wall := by
  intro word hmem letter hletter
  have hword := List.all_eq_true.mp h word hmem
  rw [Option.mem_def.mp hletter] at hword
  exact of_decide_eq_true hword

/-- Some word of the list occurs in the text. -/
def Spells (words : List (List α)) (text : List α) : Prop :=
  ∃ word ∈ words, word <:+: text

/-- No word of the list starts at a position from `first` up to `last`. -/
def NoneStarts (words : List (List α)) (text : List α) (first last : Nat) : Prop :=
  ∀ position, first ≤ position → position < last →
    ∀ word ∈ words, ¬ word <+: text.drop position

theorem isInfix_iff_prefix_drop {word text : List α} :
    word <:+: text ↔ ∃ position, word <+: text.drop position := by
  constructor
  · intro hinside
    obtain ⟨tail, hstarts, hsuffix⟩ := List.infix_iff_prefix_suffix.mp hinside
    exact ⟨text.length - tail.length, List.suffix_iff_eq_drop.mp hsuffix ▸ hstarts⟩
  · rintro ⟨position, hstarts⟩
    exact hstarts.isInfix.trans (List.drop_suffix position text).isInfix

/-- A span of a text lies within every wider span of it. -/
theorem span_isInfix (text : List α) {low low' high high' : Nat} (hlow : low' ≤ low)
    (hhigh : high ≤ high') : (text.take high).drop low <:+: (text.take high').drop low' := by
  have hstarts : (text.take high).drop low <+: (text.take high').drop low := by
    rw [List.drop_take, List.drop_take]
    exact List.take_prefix_take_left (Nat.sub_le_sub_right hhigh low)
  exact hstarts.isInfix.trans (List.drop_suffix_drop_left _ hlow).isInfix

theorem Spells.mono {words : List (List α)} {left right : List α} (h : Spells words left)
    (hinside : left <:+: right) : Spells words right := by
  obtain ⟨word, hmem, hword⟩ := h
  exact ⟨word, hmem, hword.trans hinside⟩

/-- An ending that holds the last letter of no word adds none. -/
theorem Spells.of_append_right {words : List (List α)} {text ending : List α}
    (hlast : ∀ word ∈ words, ∀ letter ∈ word.getLast?, letter ∉ ending)
    (h : Spells words (text ++ ending)) : Spells words text := by
  obtain ⟨word, hmem, before, after, heq⟩ := h
  refine ⟨word, hmem, ?_⟩
  rcases List.append_eq_append_iff.mp heq with ⟨gap, htext, -⟩ | ⟨part, hpart, hending⟩
  · exact ⟨before, gap, htext.symm⟩
  · rcases List.eq_nil_or_concat word with rfl | ⟨front, letter, rfl⟩
    · exact List.nil_infix
    · rcases List.eq_nil_or_concat part with rfl | ⟨more, other, rfl⟩
      · rw [List.append_nil] at hpart
        exact ⟨before, [], by rw [List.append_nil, hpart]⟩
      · -- the word ends inside the ending
        simp only [List.concat_eq_append, ← List.append_assoc] at hpart
        obtain ⟨-, hletter⟩ := List.append_inj' hpart rfl
        rw [List.singleton_inj] at hletter
        subst hletter
        refine absurd ?_ (hlast _ hmem letter (by simp))
        rw [hending]
        simp

/-- A beginning that holds the first letter of no word adds none. -/
theorem Spells.of_append_left {words : List (List α)} {beginning text : List α}
    (hfirst : ∀ word ∈ words, ∀ letter ∈ word.head?, letter ∉ beginning)
    (h : Spells words (beginning ++ text)) : Spells words text := by
  obtain ⟨word, hmem, before, after, heq⟩ := h
  refine ⟨word, hmem, ?_⟩
  rw [List.append_assoc] at heq
  rcases List.append_eq_append_iff.mp heq with ⟨gap, hbeginning, hword⟩ | ⟨gap, -, htext⟩
  · cases word with
    | nil => exact List.nil_infix
    | cons letter rest =>
        cases gap with
        | nil => exact ⟨[], after, hword⟩
        | cons other more =>
            have hletter := (List.cons_eq_cons.mp hword).1
            refine absurd ?_ (hfirst _ hmem letter rfl)
            rw [hbeginning, hletter]
            simp
  · exact ⟨gap, after, by rw [List.append_assoc, htext]⟩

theorem NoneStarts.not_spells {words : List (List α)} {text : List α} {first last : Nat}
    (hne : ∀ word ∈ words, word ≠ []) (h : NoneStarts words text first last) :
    ¬ Spells words ((text.take last).drop first) := by
  rintro ⟨word, hmem, hinside⟩
  obtain ⟨position, hstarts⟩ := isInfix_iff_prefix_drop.mp hinside
  rw [List.drop_drop] at hstarts
  have hpos : 0 < word.length := List.length_pos_of_ne_nil (hne word hmem)
  have hlength := hstarts.length_le
  rw [List.length_drop, List.length_take] at hlength
  refine h (first + position) (by omega) (by omega) word hmem (hstarts.trans ?_)
  rw [List.drop_take]
  exact List.take_prefix _ _

theorem spells_iff_starts {words : List (List α)} {text : List α} :
    Spells words text ↔ ∃ position, ∃ word ∈ words, word <+: text.drop position := by
  constructor
  · rintro ⟨word, hmem, hinside⟩
    obtain ⟨position, hstarts⟩ := isInfix_iff_prefix_drop.mp hinside
    exact ⟨position, word, hmem, hstarts⟩
  · rintro ⟨position, word, hmem, hstarts⟩
    exact ⟨word, hmem, isInfix_iff_prefix_drop.mpr ⟨position, hstarts⟩⟩

/-- A wall shares no letter with the start of a word, and no proper ending of a word runs into
it. -/
structure Wall (words : List (List α)) (wall : List α) : Prop where
  nonempty : wall ≠ []
  starts : ∀ word ∈ words, ∀ letter ∈ word.head?, letter ∉ wall
  endings : ∀ word ∈ words, ∀ front ending, front ++ ending = word → front ≠ [] → ending ≠ [] →
    ¬ ending <+: wall ∧ ¬ wall <+: ending

/-- The endings of a word are its drops. -/
theorem Wall.of_drops {words : List (List α)} {wall : List α} (hne : wall ≠ [])
    (hstarts : ∀ word ∈ words, ∀ letter ∈ word.head?, letter ∉ wall)
    (hdrops : ∀ word ∈ words, ∀ position < word.length, 0 < position →
      ¬ word.drop position <+: wall ∧ ¬ wall <+: word.drop position) : Wall words wall := by
  refine ⟨hne, hstarts, ?_⟩
  intro word hmem front ending hsplit hfront hending
  have hdrop : word.drop front.length = ending := by rw [← hsplit, List.drop_left]
  have hlt : front.length < word.length := by
    rw [← hsplit, List.length_append]
    exact Nat.lt_add_of_pos_right (List.length_pos_of_ne_nil hending)
  rw [← hdrop]
  exact hdrops word hmem front.length hlt (List.length_pos_of_ne_nil hfront)

theorem Wall.spells_split {words : List (List α)} {wall : List α} (h : Wall words wall)
    (hne : ∀ word ∈ words, word ≠ []) {left right : List α}
    (hspells : Spells words (left ++ (wall ++ right))) :
    Spells words left ∨ Spells words right := by
  obtain ⟨word, hmem, before, after, heq⟩ := hspells
  -- the first letter of the word is not in the wall
  have hstart : ∀ part tail, word ++ tail = part ++ right → part <:+ wall → part ≠ [] → False := by
    intro part tail hpart hsuffix hpartne
    obtain ⟨first, rest, rfl⟩ := List.exists_cons_of_ne_nil (hne word hmem)
    obtain ⟨letter, more, rfl⟩ := List.exists_cons_of_ne_nil hpartne
    rw [List.cons_append, List.cons_append, List.cons.injEq] at hpart
    refine h.starts _ hmem first rfl ?_
    rw [hpart.1]
    exact hsuffix.subset (List.mem_cons_self)
  rw [List.append_assoc] at heq
  rcases List.append_eq_append_iff.mp heq with ⟨gap, hleft, hword⟩ | ⟨gap, hbefore, hright⟩
  · rcases List.append_eq_append_iff.mp hword with ⟨past, hgap, -⟩ | ⟨ending, hsplit, hwall⟩
    · exact Or.inl ⟨word, hmem, ⟨before, past, by rw [hleft, hgap, List.append_assoc]⟩⟩
    · by_cases hending : ending = []
      · subst hending
        rw [List.append_nil] at hsplit
        exact Or.inl ⟨word, hmem, ⟨before, [], by rw [hleft, hsplit, List.append_nil]⟩⟩
      by_cases hfront : gap = []
      · subst hfront
        rw [List.nil_append] at hsplit
        subst hsplit
        exact (hstart wall after (by rw [hwall]) List.suffix_rfl h.nonempty).elim
      obtain ⟨hnot, hnot'⟩ := h.endings word hmem gap ending hsplit.symm hfront hending
      have hending : ending <+: wall ++ right := ⟨after, hwall.symm⟩
      rcases List.prefix_or_prefix_of_prefix hending (List.prefix_append wall right) with
        hstarts | hstarts
      · exact absurd hstarts hnot
      · exact absurd hstarts hnot'
  · rcases List.append_eq_append_iff.mp hright with ⟨past, hgap, htail⟩ | ⟨part, hwall, hpart⟩
    · exact Or.inr ⟨word, hmem, ⟨past, after, by rw [htail, List.append_assoc]⟩⟩
    · by_cases hempty : part = []
      · subst hempty
        exact Or.inr ⟨word, hmem, ⟨[], after, by rw [List.nil_append]; exact hpart⟩⟩
      · exact (hstart part after hpart ⟨gap, hwall.symm⟩ hempty).elim

/-- Letters that start no word may follow a wall and leave it one. -/
theorem Wall.append {words : List (List α)} {wall more : List α} (h : Wall words wall)
    (hmore : ∀ word ∈ words, ∀ letter ∈ word.head?, letter ∉ more) :
    Wall words (wall ++ more) := by
  refine ⟨?_, ?_, ?_⟩
  · intro hnil
    exact h.nonempty (List.append_eq_nil_iff.mp hnil).1
  · intro word hmem letter hletter hin
    rcases List.mem_append.mp hin with hwall | htail
    · exact h.starts word hmem letter hletter hwall
    · exact hmore word hmem letter hletter htail
  · intro word hmem front ending hsplit hfront hending
    obtain ⟨hnot, hnot'⟩ := h.endings word hmem front ending hsplit hfront hending
    refine ⟨fun hstarts => ?_, fun hstarts => hnot' ((List.prefix_append wall more).trans hstarts)⟩
    rcases List.prefix_or_prefix_of_prefix hstarts (List.prefix_append wall more) with hin | hover
    · exact hnot hin
    · exact hnot' hover

/-- No word ends in the beginning of a word. -/
def Unbordered (words : List (List α)) : Prop :=
  ∀ word ∈ words, ∀ other ∈ words, ∀ position, 0 < position → position < word.length →
    ¬ word.drop position <+: other ∧ ¬ other <+: word.drop position

theorem Unbordered.starts_iff {words : List (List α)} (h : Unbordered words)
    (hne : ∀ word ∈ words, word ≠ []) {opener closer body : List α} (hopener : opener ∈ words)
    (hcloser : closer ∈ words) (hbody : ¬ Spells words body) (position : Nat) :
    (∃ word ∈ words, word <+: (opener ++ (body ++ closer)).drop position)
      ↔ position = 0 ∨ position = opener.length + body.length := by
  constructor
  · rintro ⟨word, hmem, hstarts⟩
    have hpos : 0 < word.length := List.length_pos_of_ne_nil (hne word hmem)
    by_cases hzero : position = 0
    · exact Or.inl hzero
    by_cases hfirst : position < opener.length
    · -- inside the opener an occurrence would border it
      rw [List.drop_append_of_le_length (by omega)] at hstarts
      obtain ⟨hnot, hnot'⟩ := h opener hopener word hmem position (by omega) hfirst
      rcases List.prefix_or_prefix_of_prefix hstarts (List.prefix_append _ _) with hin | hin
      · exact absurd hin hnot'
      · exact absurd hin hnot
    obtain ⟨inner, rfl⟩ := Nat.exists_eq_add_of_le (Nat.not_lt.mp hfirst)
    rw [← List.drop_drop, List.drop_left] at hstarts
    by_cases hmiddle : inner < body.length
    · rw [List.drop_append_of_le_length (by omega)] at hstarts
      exfalso
      rcases List.prefix_or_prefix_of_prefix hstarts (List.prefix_append _ _) with hin | hin
      · exact hbody (spells_iff_starts.mpr ⟨inner, word, hmem, hin⟩)
      · obtain ⟨ending, hsplit⟩ := hin
        have hending : ending <+: closer := by
          rw [← hsplit] at hstarts
          exact (List.prefix_append_right_inj _).mp hstarts
        have hdrop : word.drop (body.drop inner).length = ending := by
          rw [← hsplit, List.drop_left]
        by_cases hshort : (body.drop inner).length < word.length
        · have hfront : 0 < (body.drop inner).length := by rw [List.length_drop]; omega
          exact (h word hmem closer hcloser _ hfront hshort).1 (hdrop ▸ hending)
        · have hempty : ending = [] := by
            rw [← hdrop, List.drop_eq_nil_iff]
            omega
          rw [hempty, List.append_nil] at hsplit
          exact hbody (spells_iff_starts.mpr ⟨inner, word, hmem, hsplit ▸ List.prefix_rfl⟩)
    · obtain ⟨last, rfl⟩ := Nat.exists_eq_add_of_le (Nat.not_lt.mp hmiddle)
      rw [← List.drop_drop, List.drop_left] at hstarts
      by_cases hlast : last = 0
      · exact Or.inr (by omega)
      · exfalso
        have hlength := hstarts.length_le
        rw [List.length_drop] at hlength
        exact (h closer hcloser word hmem last (by omega) (by omega)).2 hstarts
  · rintro (rfl | rfl)
    · exact ⟨opener, hopener, List.prefix_append _ _⟩
    · refine ⟨closer, hcloser, ?_⟩
      rw [← List.drop_drop, List.drop_left, List.drop_left]

end words

section scan
variable {α : Type*} [DecidableEq α]

/-- The word of the list that starts the text, by its length. -/
def wordAt (words : List (List α)) (text : List α) : Option Nat :=
  (words.find? fun word => word.isPrefixOf text).map List.length

/-- The scan of a text from `position` on, `skip` letters of which belong to the last match. -/
def finditerFrom (words : List (List α)) : Nat → Nat → List α → List (Nat × Nat)
  | _, _, [] => []
  | skip + 1, position, _ :: rest => finditerFrom words skip (position + 1) rest
  | 0, position, letter :: rest =>
      match wordAt words (letter :: rest) with
      | some size =>
          (position, position + size) :: finditerFrom words (size - 1) (position + 1) rest
      | none => finditerFrom words 0 (position + 1) rest

/-- Every match from left to right, none overlapping the one before it. -/
def finditer (words : List (List α)) (text : List α) : List (Nat × Nat) :=
  finditerFrom words 0 0 text

/-- The first index at which the word occurs. -/
def find (word text : List α) : Option Nat :=
  (List.range (text.length + 1)).find? fun index => word.isPrefixOf (text.drop index)

/-- Between the matches and after the last of them the text spells no word. -/
def Gapped (words : List (List α)) (text : List α) : Nat → List (Nat × Nat) → Prop
  | first, [] => ¬ Spells words (text.drop first)
  | first, (start, stop) :: rest =>
      first ≤ start ∧ stop ≤ text.length ∧ start < stop ∧ (text.take stop).drop start ∈ words
        ∧ ¬ Spells words ((text.take start).drop first) ∧ Gapped words text stop rest

theorem find_eq_zero {word text : List α} (h : word <+: text) : find word text = some 0 := by
  rw [find, List.range_succ_eq_map, List.find?_cons_of_pos]
  simpa using h

theorem find_eq_some {word text : List α} {index : Nat} (h : find word text = some index) :
    word <+: text.drop index ∧ ∀ earlier < index, ¬ word <+: text.drop earlier := by
  rw [find, List.find?_range_eq_some] at h
  refine ⟨List.isPrefixOf_iff_prefix.mp h.1, fun earlier hlt hword => ?_⟩
  have hnot := h.2.2 earlier hlt
  rw [List.isPrefixOf_iff_prefix.mpr hword] at hnot
  cases hnot

theorem find_add_length_le {word text : List α} {index : Nat} (h : find word text = some index) :
    index + word.length ≤ text.length := by
  have hlength := (find_eq_some h).1.length_le
  rw [List.length_drop] at hlength
  rw [find, List.find?_range_eq_some] at h
  have hmem := List.mem_range.mp h.2.1
  omega

theorem find_eq_none {word text : List α} (h : find word text = none) (before after : List α) :
    text ≠ before ++ word ++ after := by
  rintro rfl
  rw [find, List.find?_eq_none] at h
  refine h before.length (List.mem_range.mpr ?_) (List.isPrefixOf_iff_prefix.mpr ?_)
  · simp only [List.length_append]
    omega
  · rw [List.append_assoc, List.drop_left]
    exact List.prefix_append _ _

theorem wordAt_eq_some {words : List (List α)} {text : List α} {size : Nat}
    (h : wordAt words text = some size) : size ≤ text.length ∧ text.take size ∈ words := by
  obtain ⟨word, hfind, rfl⟩ := Option.map_eq_some_iff.mp h
  have hstarts : word <+: text := by simpa using List.find?_some hfind
  refine ⟨hstarts.length_le, ?_⟩
  rw [← List.prefix_iff_eq_take.mp hstarts]
  exact List.mem_of_find?_eq_some hfind

theorem wordAt_eq_none {words : List (List α)} {text : List α} (h : wordAt words text = none) :
    ∀ word ∈ words, ¬ word <+: text := by
  intro word hmem hstarts
  have hnone := List.find?_eq_none.mp (Option.map_eq_none_iff.mp h) word hmem
  exact hnone (by simpa using hstarts)

theorem finditerFrom_gapped {words : List (List α)} (hne : ∀ word ∈ words, word ≠ [])
    (text : List α) : ∀ (rest : List α) (skip position first : Nat), text.drop position = rest →
      first ≤ position + skip → (0 < skip → first = position + skip) →
      first ≤ text.length → NoneStarts words text first position →
      Gapped words text first (finditerFrom words skip position rest) := by
  intro rest
  induction rest with
  | nil =>
      intro skip position first hdrop hfirst hskip hlength hnone
      rw [finditerFrom, Gapped]
      have hend := List.drop_eq_nil_iff.mp hdrop
      have hclear : NoneStarts words text first text.length := by
        intro place hplace hplace' word hmem
        exact hnone place hplace (by omega) word hmem
      simpa using hclear.not_spells hne
  | cons letter rest ih =>
      intro skip position first hdrop hfirst hskip hlength hnone
      have hposition : position < text.length := by
        by_contra hover
        rw [List.drop_eq_nil_of_le (Nat.not_lt.mp hover)] at hdrop
        exact absurd hdrop (List.cons_ne_nil _ _).symm
      have hrest : text.drop (position + 1) = rest := by
        rw [← List.drop_drop, hdrop, List.drop_one, List.tail_cons]
      cases skip with
      | succ skip =>
          rw [finditerFrom]
          have hexact := hskip (Nat.succ_pos skip)
          refine ih skip (position + 1) first hrest (by omega) (fun _ => by omega) hlength ?_
          intro place hplace hplace'
          omega
      | zero =>
          rw [finditerFrom]
          cases hword : wordAt words (letter :: rest) with
          | none =>
              refine ih 0 (position + 1) first hrest (by omega) (by omega) hlength ?_
              intro place hplace hplace' word hmem
              rcases Nat.lt_or_ge place position with hearlier | hhere
              · exact hnone place hplace hearlier word hmem
              · have heq : place = position := by omega
                rw [heq, hdrop]
                exact wordAt_eq_none hword word hmem
          | some size =>
              obtain ⟨hsize, hmem⟩ := wordAt_eq_some hword
              have hpos : 0 < size := by
                rcases Nat.eq_zero_or_pos size with hzero | hpos
                · rw [hzero, List.take_zero] at hmem
                  exact absurd rfl (hne [] hmem)
                · exact hpos
              have htotal : position + size ≤ text.length := by
                rw [← hdrop, List.length_drop] at hsize
                omega
              refine ⟨by omega, htotal, by omega, ?_, hnone.not_spells hne, ?_⟩
              · rw [List.drop_take, hdrop, Nat.add_sub_cancel_left]
                exact hmem
              · refine ih (size - 1) (position + 1) (position + size) hrest (by omega)
                  (fun _ => by omega) htotal ?_
                intro place hplace hplace'
                omega

/-- The matches of the scan are words of the list, and what lies between them spells none. -/
theorem finditer_gapped {words : List (List α)} (hne : ∀ word ∈ words, word ≠ [])
    (text : List α) : Gapped words text 0 (finditer words text) :=
  finditerFrom_gapped hne text text 0 0 0 rfl (by omega) (by omega) (by omega)
    (fun _ _ hlast => absurd hlast (by omega))

theorem finditer_eq_nil_iff {words : List (List α)} (hne : ∀ word ∈ words, word ≠ [])
    {text : List α} : finditer words text = [] ↔ ¬ Spells words text := by
  have hgapped := finditer_gapped hne text
  constructor
  · intro hnil
    rw [hnil, Gapped, List.drop_zero] at hgapped
    exact hgapped
  · intro hnot
    cases hmatches : finditer words text with
    | nil => rfl
    | cons found rest =>
        rw [hmatches] at hgapped
        obtain ⟨-, -, -, hmem, -, -⟩ := hgapped
        refine absurd ⟨_, hmem, ?_⟩ hnot
        exact (List.drop_suffix _ _).isInfix.trans (List.take_prefix _ _).isInfix

omit [DecidableEq α] in
/-- Every match is a span of the text. -/
theorem Gapped.span_bounds {words : List (List α)} {text : List α} :
    ∀ {first : Nat} {found : List (Nat × Nat)}, Gapped words text first found →
      ∀ span ∈ found, span.1 < span.2 ∧ span.2 ≤ text.length
  | _, [], _, span, hmem => absurd hmem List.not_mem_nil
  | _, (_, _) :: _, ⟨_, hstop, hstart, _, _, hrest⟩, span, hmem => by
      rcases List.mem_cons.mp hmem with rfl | hlater
      · exact ⟨hstart, hstop⟩
      · exact hrest.span_bounds span hlater

/-- No word starts in the left text and ends in the right one. -/
def NoStraddle (words : List (List α)) (left right : List α) : Prop :=
  ∀ tail, tail <:+ left → tail ≠ [] → ∀ word ∈ words, word <+: tail ++ right →
    word.length ≤ tail.length

omit [DecidableEq α] in
theorem noStraddle_nil (words : List (List α)) (left : List α) : NoStraddle words left [] := by
  intro tail _ _ word _ hstarts
  rw [List.append_nil] at hstarts
  exact hstarts.length_le

omit [DecidableEq α] in
/-- No word straddles into a text whose start no ending of a word runs into. -/
theorem noStraddle_of_start {words : List (List α)} {left right start : List α}
    (hright : start <+: right)
    (hstart : ∀ word ∈ words, ∀ position < word.length, 0 < position →
      ¬ word.drop position <+: start ∧ ¬ start <+: word.drop position) :
    NoStraddle words left right := by
  intro tail _ htail word hmem hword
  by_contra hlong
  have hpos := List.length_pos_of_ne_nil htail
  obtain ⟨hnot, hnot'⟩ := hstart word hmem tail.length (by omega) hpos
  have hending : word.drop tail.length <+: right := by
    have hdrop := hword.drop tail.length
    rwa [List.drop_left] at hdrop
  rcases List.prefix_or_prefix_of_prefix hending hright with hin | hin
  · exact hnot hin
  · exact hnot' hin

theorem finditerFrom_shift (words : List (List α)) (offset : Nat) (text : List α) :
    ∀ skip position, finditerFrom words skip (offset + position) text
      = (finditerFrom words skip position text).map fun span => (offset + span.1,
          offset + span.2) := by
  induction text with
  | nil =>
      intro skip position
      cases skip <;> rfl
  | cons letter rest ih =>
      intro skip position
      cases skip with
      | succ skip =>
          rw [finditerFrom, finditerFrom]
          exact ih skip (position + 1)
      | zero =>
          rw [finditerFrom, finditerFrom]
          cases wordAt words (letter :: rest) with
          | none => exact ih 0 (position + 1)
          | some size =>
              dsimp only
              rw [List.map_cons, Nat.add_assoc, Nat.add_assoc, ih (size - 1) (position + 1)]

theorem wordAt_append {words : List (List α)} {text right : List α}
    (h : ∀ word ∈ words, word <+: text ++ right → word.length ≤ text.length) :
    wordAt words (text ++ right) = wordAt words text := by
  have hsame : ∀ word ∈ words, word.isPrefixOf (text ++ right) = word.isPrefixOf text := by
    intro word hmem
    rw [Bool.eq_iff_iff, List.isPrefixOf_iff_prefix, List.isPrefixOf_iff_prefix]
    constructor
    · intro hstarts
      exact List.prefix_of_prefix_length_le hstarts (List.prefix_append text right)
        (h word hmem hstarts)
    · exact fun hstarts => hstarts.trans (List.prefix_append text right)
  rw [wordAt, wordAt]
  congr 1
  clear h
  induction words with
  | nil => rfl
  | cons word words ih =>
      rw [List.find?_cons, List.find?_cons, hsame word List.mem_cons_self,
        ih fun other hother => hsame other (List.mem_cons_of_mem _ hother)]

theorem finditerFrom_append {words : List (List α)} {right : List α} :
    ∀ {left : List α}, NoStraddle words left right → ∀ skip position, skip ≤ left.length →
      finditerFrom words skip position (left ++ right)
        = finditerFrom words skip position left
          ++ finditerFrom words 0 (position + left.length) right := by
  intro left
  induction left with
  | nil =>
      intro _ skip position hskip
      obtain rfl : skip = 0 := Nat.le_zero.mp hskip
      rfl
  | cons letter rest ih =>
      intro hnone skip position hskip
      have hlater : NoStraddle words rest right :=
        fun tail htail => hnone tail (htail.trans (List.suffix_cons letter rest))
      have hposition : position + (letter :: rest).length = position + 1 + rest.length := by
        rw [List.length_cons]
        omega
      rw [List.cons_append, hposition]
      cases skip with
      | succ skip =>
          rw [finditerFrom, finditerFrom,
            ih hlater skip (position + 1) (Nat.le_of_succ_le_succ hskip)]
      | zero =>
          have hhere :=
            wordAt_append (hnone (letter :: rest) List.suffix_rfl (List.cons_ne_nil _ _))
          rw [List.cons_append] at hhere
          rw [finditerFrom, finditerFrom, hhere]
          cases hword : wordAt words (letter :: rest) with
          | none => exact ih hlater 0 (position + 1) (Nat.zero_le _)
          | some size =>
              have hsize := (wordAt_eq_some hword).1
              rw [List.length_cons] at hsize
              dsimp only
              rw [ih hlater (size - 1) (position + 1) (by omega), List.cons_append]

/-- Two texts that no word straddles are scanned one after the other. -/
theorem finditer_append {words : List (List α)} {left right : List α}
    (h : NoStraddle words left right) :
    finditer words (left ++ right) = finditer words left
      ++ (finditer words right).map fun span => (left.length + span.1, left.length + span.2) := by
  rw [finditer, finditerFrom_append h 0 0 (Nat.zero_le _), Nat.zero_add, finditer, finditer,
    ← finditerFrom_shift words left.length right 0 0, Nat.add_zero]

end scan

section splitting
variable {α : Type*}

/-- The pieces of a split hold no separator. -/
theorem forall_mem_splitOnP (p : α → Bool) (text : List α) :
    ∀ piece ∈ text.splitOnP p, ∀ letter ∈ piece, p letter = false := by
  induction text with
  | nil =>
      intro piece hpiece letter hletter
      rw [List.splitOnP_nil, List.mem_singleton] at hpiece
      rw [hpiece] at hletter
      cases hletter
  | cons letter text ih =>
      intro piece hpiece
      rw [List.splitOnP_cons_eq_if_modifyHead] at hpiece
      split_ifs at hpiece with hseparates
      · rcases List.mem_cons.mp hpiece with rfl | hlater
        · exact fun other hother => absurd hother List.not_mem_nil
        · exact ih piece hlater
      · obtain ⟨first, rest, hsplit⟩ := List.exists_cons_of_ne_nil (List.splitOnP_ne_nil p text)
        rw [hsplit] at ih hpiece
        rw [List.modifyHead_cons] at hpiece
        rcases List.mem_cons.mp hpiece with rfl | hlater
        · intro other hother
          rcases List.mem_cons.mp hother with rfl | hrest
          · exact Bool.eq_false_iff.mpr hseparates
          · exact ih first List.mem_cons_self other hrest
        · exact ih piece (List.mem_cons_of_mem _ hlater)

/-- What a split keeps of a text is everything but the separators. -/
theorem mem_splitOnP_iff {p : α → Bool} {text : List α} {letter : α} :
    (∃ piece ∈ text.splitOnP p, letter ∈ piece) ↔ letter ∈ text ∧ p letter = false := by
  induction text with
  | nil => simp [List.splitOnP_nil]
  | cons first text ih =>
      rw [List.splitOnP_cons_eq_if_modifyHead]
      split_ifs with hseparates
      · rw [List.exists_mem_cons_iff, ih, List.mem_cons]
        constructor
        · rintro (h | ⟨hmem, hplain⟩)
          · cases h
          · exact ⟨Or.inr hmem, hplain⟩
        · rintro ⟨rfl | hmem, hplain⟩
          · rw [hseparates] at hplain
            cases hplain
          · exact Or.inr ⟨hmem, hplain⟩
      · obtain ⟨piece, rest, hsplit⟩ := List.exists_cons_of_ne_nil (List.splitOnP_ne_nil p text)
        rw [hsplit, List.exists_mem_cons_iff] at ih
        rw [hsplit, List.modifyHead_cons, List.exists_mem_cons_iff, List.mem_cons, or_assoc, ih,
          List.mem_cons]
        constructor
        · rintro (rfl | ⟨hmem, hplain⟩)
          · exact ⟨Or.inl rfl, Bool.eq_false_iff.mpr hseparates⟩
          · exact ⟨Or.inr hmem, hplain⟩
        · rintro ⟨rfl | hmem, hplain⟩
          · exact Or.inl rfl
          · exact Or.inr ⟨hmem, hplain⟩

/-- Pieces joined by one separator are what splitting gives back, exactly when none holds one. -/
theorem splitOnP_intercalate_iff {p : α → Bool} {separator : α} (hseparator : p separator = true)
    {pieces : List (List α)} (hne : pieces ≠ []) :
    ([separator].intercalate pieces).splitOnP p = pieces
      ↔ ∀ piece ∈ pieces, ∀ letter ∈ piece, p letter = false := by
  constructor
  · intro h piece hpiece
    rw [← h] at hpiece
    exact forall_mem_splitOnP p _ piece hpiece
  · intro h
    induction pieces with
    | nil => exact absurd rfl hne
    | cons piece pieces ih =>
        have hpiece := h piece List.mem_cons_self
        cases pieces with
        | nil =>
            rw [List.intercalate_singleton]
            exact List.splitOnP_eq_singleton hpiece
        | cons next pieces =>
            rw [List.intercalate_cons_cons, List.append_assoc, List.singleton_append,
              List.splitOnP_append_cons_of_forall_mem hpiece separator hseparator,
              ih (List.cons_ne_nil _ _) fun other hother => h other (List.mem_cons_of_mem _ hother)]

theorem mem_of_mem_intercalate {separator : List α} {pieces : List (List α)} {letter : α}
    (h : letter ∈ separator.intercalate pieces) : letter ∈ separator ∨ ∃ piece ∈ pieces,
      letter ∈ piece := by
  induction pieces with
  | nil => cases h
  | cons piece pieces ih =>
      cases pieces with
      | nil =>
          rw [List.intercalate_singleton] at h
          exact Or.inr ⟨piece, List.mem_cons_self, h⟩
      | cons next pieces =>
          rw [List.intercalate_cons_cons, List.append_assoc, List.mem_append, List.mem_append] at h
          rcases h with hhere | hseparator | hlater
          · exact Or.inr ⟨piece, List.mem_cons_self, hhere⟩
          · exact Or.inl hseparator
          · rcases ih hlater with hseparator | ⟨other, hother, hletter⟩
            · exact Or.inl hseparator
            · exact Or.inr ⟨other, List.mem_cons_of_mem _ hother, hletter⟩

end splitting

section readings
variable {α β : Type*} (letters : α → List β)

/-- How many letters the first `index` symbols of the text stand for. -/
def letterOffset (text : List α) (index : Nat) : Nat :=
  ((text.take index).flatMap letters).length

/-- For each letter of the reading, the index of the symbol it came from. -/
def letterOrigin (text : List α) : List Nat :=
  text.zipIdx.flatMap fun (symbol, index) => List.replicate (letters symbol).length index

theorem letterOffset_mono (text : List α) (low high : Nat) (h : low ≤ high) :
    letterOffset letters text low ≤ letterOffset letters text high := by
  have hstarts : text.take low <+: text.take high := List.take_prefix_take_left h
  obtain ⟨rest, hrest⟩ := hstarts
  rw [letterOffset, letterOffset, ← hrest, List.flatMap_append, List.length_append]
  exact Nat.le_add_right _ _

theorem letterOffset_of_length_le (text : List α) {index : Nat} (h : text.length ≤ index) :
    letterOffset letters text index = (text.flatMap letters).length := by
  rw [letterOffset, List.take_of_length_le h]

theorem flatMap_take (text : List α) (index : Nat) :
    (text.take index).flatMap letters
      = (text.flatMap letters).take (letterOffset letters text index) := by
  conv_rhs => rw [← List.take_append_drop index text, List.flatMap_append]
  rw [letterOffset, List.take_append_drop, List.take_left]

theorem flatMap_drop (text : List α) (index : Nat) :
    (text.drop index).flatMap letters
      = (text.flatMap letters).drop (letterOffset letters text index) := by
  conv_rhs => rw [← List.take_append_drop index text, List.flatMap_append]
  rw [letterOffset, List.take_append_drop, List.drop_left]

/-- The letters of a span of symbols are a span of the letters. -/
theorem flatMap_span (text : List α) (low high : Nat) :
    ((text.take high).drop low).flatMap letters
      = ((text.flatMap letters).take (letterOffset letters text high)).drop
          (letterOffset letters text low) := by
  rcases Nat.le_total low high with hle | hle
  · rw [flatMap_drop, flatMap_take]
    congr 1
    rw [letterOffset, letterOffset, List.take_take, Nat.min_eq_left hle]
  · have hempty : (text.take high).drop low = [] := by
      rw [List.drop_eq_nil_iff, List.length_take]
      omega
    rw [hempty, List.flatMap_nil, eq_comm, List.drop_eq_nil_iff, List.length_take]
    exact (Nat.min_le_left _ _).trans (letterOffset_mono letters text high low hle)

theorem letterOrigin_length (text : List α) :
    (letterOrigin letters text).length = (text.flatMap letters).length := by
  unfold letterOrigin
  rw [List.length_flatMap, List.length_flatMap]
  conv_rhs => rw [← List.zipIdx_map_fst 0 text, List.map_map]
  simp [Function.comp_def]

theorem letterOrigin_append (left right : List α) :
    letterOrigin letters (left ++ right)
      = letterOrigin letters left ++ (letterOrigin letters right).map (left.length + ·) := by
  have hshift : right.zipIdx left.length
      = right.zipIdx.map fun (symbol, index) => (symbol, left.length + index) :=
    List.zipIdx_eq_map_add
  rw [letterOrigin, List.zipIdx_append, List.flatMap_append, Nat.zero_add, hshift, List.flatMap_map,
    letterOrigin, letterOrigin, List.map_flatMap]
  simp only [List.map_replicate]

theorem letterOrigin_spec (text : List α) (place : Nat)
    (hplace : place < (text.flatMap letters).length) :
    letterOffset letters text ((letterOrigin letters text).getD place 0) ≤ place
      ∧ place < letterOffset letters text ((letterOrigin letters text).getD place 0 + 1)
      ∧ (letterOrigin letters text).getD place 0 < text.length := by
  induction text using List.reverseRecOn generalizing place with
  | nil => exact absurd hplace (Nat.not_lt_zero place)
  | append_singleton text symbol ih =>
      have horigin : letterOrigin letters (text ++ [symbol])
          = letterOrigin letters text
              ++ List.replicate (letters symbol).length text.length := by
        simp [letterOrigin, List.zipIdx_append]
      have hsize := letterOrigin_length letters text
      have hinside : ∀ index, index ≤ text.length →
          letterOffset letters (text ++ [symbol]) index = letterOffset letters text index := by
        intro index hindex
        rw [letterOffset, letterOffset, List.take_append_of_le_length hindex]
      rw [List.flatMap_append, List.length_append, List.flatMap_singleton] at hplace
      rw [horigin, List.length_append, List.length_singleton]
      rcases Nat.lt_or_ge place (text.flatMap letters).length with hearlier | hlast
      · obtain ⟨hlow, hhigh, hindex⟩ := ih place hearlier
        rw [List.getD_append _ _ _ _ (by omega)]
        rw [hinside _ (by omega), hinside _ (by omega)]
        exact ⟨hlow, hhigh, by omega⟩
      · rw [List.getD_append_right _ _ _ _ (by omega), List.getD_replicate _ (by omega)]
        rw [hinside _ le_rfl, letterOffset_of_length_le letters text le_rfl,
          letterOffset_of_length_le letters _ (by simp), List.flatMap_append, List.length_append,
          List.flatMap_singleton]
        exact ⟨hlast, hplace, by omega⟩

/-- A word whose letters no symbol gives more than `width` of at a stretch needs as many symbols. -/
theorem length_le_of_narrow {word : List β} {width : Nat} :
    ∀ {text : List α}, (∀ symbol ∈ text, ∀ part, part <:+: letters symbol → part <:+: word →
      part.length ≤ width) → word <:+: text.flatMap letters →
      word.length ≤ width * text.length := by
  intro text
  induction text generalizing word with
  | nil =>
      intro _ hinside
      rw [List.flatMap_nil, List.infix_nil] at hinside
      rw [hinside, List.length_nil]
      exact Nat.zero_le _
  | cons symbol text ih =>
      rintro hnarrow ⟨before, after, heq⟩
      rw [List.flatMap_cons, List.append_assoc] at heq
      have hhead : ∀ part, part <:+: letters symbol → part <:+: word → part.length ≤ width :=
        hnarrow symbol List.mem_cons_self
      have htail : ∀ {ending : List β}, ending <:+: word → ending <:+: text.flatMap letters →
          ending.length ≤ width * text.length := by
        intro ending hending hin
        refine ih (fun other hother part hpart hpart' => ?_) hin
        exact hnarrow other (List.mem_cons_of_mem _ hother) part hpart (hpart'.trans hending)
      rw [List.length_cons, Nat.mul_succ]
      rcases List.append_eq_append_iff.mp heq with ⟨gap, hletters, hword⟩ | ⟨gap, -, hright⟩
      · rcases List.append_eq_append_iff.mp hword with ⟨past, hgap, -⟩ | ⟨ending, hsplit, hrest⟩
        · have hle := hhead word ⟨before, past, by rw [hletters, hgap, List.append_assoc]⟩
            List.infix_rfl
          omega
        · have hfront := hhead gap ⟨before, [], by rw [hletters, List.append_nil]⟩
            ⟨[], ending, by rw [hsplit, List.nil_append]⟩
          have hback := htail ⟨gap, [], by rw [hsplit, List.append_nil]⟩
            ⟨[], after, by rw [hrest, List.nil_append]⟩
          rw [hsplit, List.length_append]
          omega
      · have hle := htail List.infix_rfl ⟨gap, after, by rw [hright, List.append_assoc]⟩
        omega

end readings

end Quorum
