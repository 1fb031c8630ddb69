import Mathlib.Data.List.Basic
import Mathlib.Tactic

/-! Every match of a pattern replaced by one symbol, from left to right. A pattern says how much of
a text its match at the head takes. What is kept keeps its order, and the rest is matches. -/

universe u

namespace Substitution

variable {α : Type u}

/-- A symbol that is kept, or a match. -/
inductive Segment (α : Type u)
  | kept (symbol : α)
  | cut (matched : List α)

namespace Segment

def source : Segment α → List α
  | kept symbol => [symbol]
  | cut matched => matched

/-- What the segment is replaced by. -/
def render (mark : α) : Segment α → α
  | kept symbol => symbol
  | cut _ => mark

end Segment

def source (segments : List (Segment α)) : List α := segments.flatMap Segment.source

/-- The pattern replaced past the next symbols that a match took. -/
def substituteFrom (pattern : List α → Option ℕ) (mark : α) : ℕ → List α → List α
  | _, [] => []
  | skip + 1, _ :: rest => substituteFrom pattern mark skip rest
  | 0, symbol :: rest =>
      match pattern (symbol :: rest) with
      | some width => mark :: substituteFrom pattern mark (width - 1) rest
      | none => symbol :: substituteFrom pattern mark 0 rest

def substitute (pattern : List α → Option ℕ) (mark : α) (text : List α) : List α :=
  substituteFrom pattern mark 0 text

/-- A match takes something, and no more than there is. -/
def Bounded (pattern : List α → Option ℕ) : Prop :=
  ∀ text width, pattern text = some width → 0 < width ∧ width ≤ text.length

/-- A match that begins within another ends within it. -/
def Nested (pattern : List α → Option ℕ) : Prop :=
  ∀ text width inner width', pattern text = some width → inner < width →
    pattern (text.drop inner) = some width' →
    inner + width' ≤ width

/-- The segments are those of a scan: a symbol is kept where nothing matches, and what is cut is the
match there. -/
inductive Scanned (pattern : List α → Option ℕ) : List (Segment α) → Prop
  | nil : Scanned pattern []
  | kept {symbol : α} {segments : List (Segment α)}
      (hnone : pattern (symbol :: source segments) = none)
      (hrest : Scanned pattern segments) : Scanned pattern (.kept symbol :: segments)
  | cut {matched : List α} {segments : List (Segment α)}
      (hsome : pattern (matched ++ source segments) = some matched.length)
      (hrest : Scanned pattern segments) : Scanned pattern (.cut matched :: segments)

/-- The span from `start` on is apart from every match in the text. -/
def Apart (pattern : List α → Option ℕ) (text : List α) (start stop : ℕ) : Prop :=
  ∀ place width, pattern (text.drop place) = some width → place + width ≤ start ∨ stop ≤ place

variable {pattern : List α → Option ℕ} {mark : α} {segments left right : List (Segment α)}
  {text : List α}

@[simp] theorem source_nil : source ([] : List (Segment α)) = [] := rfl

@[simp] theorem source_kept (symbol : α) (segments : List (Segment α)) :
    source (.kept symbol :: segments) = symbol :: source segments := rfl

@[simp] theorem source_cut (matched : List α) (segments : List (Segment α)) :
    source (.cut matched :: segments) = matched ++ source segments := rfl

@[simp] theorem source_append (left right : List (Segment α)) :
    source (left ++ right) = source left ++ source right :=
  List.flatMap_append

theorem source_map_kept (word : List α) : source (word.map .kept) = word := by
  induction word with
  | nil => rfl
  | cons symbol word ih => rw [List.map_cons, source_kept, ih]

theorem render_map_kept (word : List α) :
    (word.map Segment.kept).map (Segment.render mark) = word := by
  rw [List.map_map]
  exact List.map_id word

theorem substituteFrom_drop (skip : ℕ) (text : List α) :
    substituteFrom pattern mark skip text = substituteFrom pattern mark 0 (text.drop skip) := by
  induction skip generalizing text with
  | zero => rfl
  | succ skip ih =>
      cases text with
      | nil => rfl
      | cons symbol rest => exact ih rest

@[simp] theorem substitute_nil : substitute pattern mark [] = [] := rfl

theorem substitute_kept {symbol : α} {rest : List α} (h : pattern (symbol :: rest) = none) :
    substitute pattern mark (symbol :: rest) = symbol :: substitute pattern mark rest := by
  rw [substitute, substituteFrom, h]
  rfl

theorem substitute_cut (hbounded : Bounded pattern) {width : ℕ} (h : pattern text = some width) :
    substitute pattern mark text = mark :: substitute pattern mark (text.drop width) := by
  obtain ⟨hpos, hle⟩ := hbounded text width h
  cases text with
  | nil => exact absurd hle (not_le.mpr hpos)
  | cons symbol rest =>
      obtain ⟨inner, rfl⟩ : ∃ inner, width = inner + 1 := ⟨width - 1, by omega⟩
      rw [substitute, substituteFrom, h]
      exact congrArg (mark :: ·) (substituteFrom_drop inner rest)

/-- Where no match of the front goes on behind it, the two parts are replaced each for itself. -/
theorem substitute_append (hbounded : Bounded pattern) {front back : List α}
    (h : ∀ place < front.length, pattern (front.drop place ++ back) = pattern (front.drop place)) :
    substitute pattern mark (front ++ back) = substitute pattern mark front
      ++ substitute pattern mark back := by
  induction hlength : front.length using Nat.strong_induction_on generalizing front with
  | _ n ih =>
    cases front with
    | nil => rfl
    | cons symbol rest =>
        have hhead : pattern (symbol :: rest ++ back) = pattern (symbol :: rest) :=
          h 0 (Nat.succ_pos _)
        rw [List.length_cons] at hlength
        cases hmatch : pattern (symbol :: rest) with
        | none =>
            have hrest := @ih rest.length (by omega) rest
              (fun place hplace => h (place + 1) (Nat.succ_lt_succ hplace)) rfl
            rw [hmatch] at hhead
            rw [List.cons_append] at hhead ⊢
            rw [substitute_kept hhead, substitute_kept hmatch, hrest]
            rfl
        | some width =>
            obtain ⟨hpos, hle⟩ := hbounded _ _ hmatch
            have hdropped : ((symbol :: rest).drop width).length = rest.length + 1 - width := by
              rw [List.length_drop, List.length_cons]
            have hrest := @ih _ (by omega) ((symbol :: rest).drop width) (fun place hplace => by
              rw [List.drop_drop]
              exact h _ (by rw [List.length_cons]; omega)) rfl
            rw [hmatch] at hhead
            rw [substitute_cut hbounded hhead, substitute_cut hbounded hmatch,
              List.drop_append_of_le_length hle, hrest]
            rfl

/-- A text is a scan's segments, and its substitution renders them. -/
theorem exists_scanned (hbounded : Bounded pattern) (mark : α) (text : List α) :
    ∃ segments, Scanned pattern segments ∧ source segments = text
      ∧ substitute pattern mark text = segments.map (Segment.render mark) := by
  induction hlength : text.length using Nat.strong_induction_on generalizing text with
  | _ n ih =>
    cases text with
    | nil => exact ⟨[], .nil, rfl, rfl⟩
    | cons symbol rest =>
        cases hmatch : pattern (symbol :: rest) with
        | none =>
            obtain ⟨segments, hscanned, hsource, hsub⟩ :=
              ih rest.length (by rw [← hlength]; exact Nat.lt_succ_self _)
              rest rfl
            refine ⟨.kept symbol :: segments, .kept (by rw [hsource, hmatch]) hscanned,
              by rw [source_kept, hsource], ?_⟩
            rw [substitute, substituteFrom, hmatch, List.map_cons, ← hsub]
            rfl
        | some width =>
            obtain ⟨hpos, hle⟩ := hbounded _ _ hmatch
            have hshort : ((symbol :: rest).drop width).length < n := by
              rw [List.length_drop, hlength]
              omega
            obtain ⟨segments, hscanned, hsource, hsub⟩ := ih _ hshort _ rfl
            have hwidth : ((symbol :: rest).take width).length = width := List.length_take_of_le hle
            refine ⟨.cut ((symbol :: rest).take width) :: segments, .cut ?_ hscanned, ?_, ?_⟩
            · rw [hsource, List.take_append_drop, hmatch, hwidth]
            · rw [source_cut, hsource, List.take_append_drop]
            · obtain ⟨inner, rfl⟩ : ∃ inner, width = inner + 1 := ⟨width - 1, by omega⟩
              rw [substitute, substituteFrom, hmatch, List.map_cons, ← hsub, substitute]
              exact congrArg (mark :: ·) (substituteFrom_drop inner rest)

theorem Scanned.of_append (hscanned : Scanned pattern (left ++ right)) : Scanned pattern right := by
  induction left with
  | nil => exact hscanned
  | cons segment left ih =>
      cases hscanned with
      | kept _ hrest => exact ih hrest
      | cut _ hrest => exact ih hrest

/-- A scan can be split where no match goes across. -/
theorem Scanned.split_at (hscanned : Scanned pattern segments) {before after : List α}
    (hsource : source segments = before ++ after)
    (hfree : ∀ place width, pattern ((before ++ after).drop place) = some width →
      place + width ≤ before.length ∨ before.length ≤ place) :
    ∃ left right, segments = left ++ right ∧ source left = before ∧ source right = after
      ∧ Scanned pattern right := by
  induction hscanned generalizing before with
  | nil =>
      obtain ⟨rfl, rfl⟩ := List.append_eq_nil_iff.mp hsource.symm
      exact ⟨[], [], rfl, rfl, rfl, .nil⟩
  | @kept symbol segments hnone hrest ih =>
      cases before with
      | nil => exact ⟨[], _, rfl, rfl, hsource, .kept hnone hrest⟩
      | cons first before =>
          obtain ⟨rfl, htail⟩ := List.cons.inj hsource
          obtain ⟨left, right, rfl, hleft, hright, hscan⟩ := ih htail fun place width hplace => by
            have hone := hfree (place + 1) width hplace
            rw [List.length_cons] at hone
            omega
          exact ⟨.kept symbol :: left, right, rfl, by rw [source_kept, hleft], hright, hscan⟩
  | @cut matched segments hsome hrest ih =>
      cases hbefore : before with
      | nil => exact ⟨[], _, rfl, rfl, by rw [hsource, hbefore, List.nil_append], .cut hsome hrest⟩
      | cons first tail =>
          rw [source_cut] at hsource
          have hle : matched.length ≤ before.length := by
            have hzero := hfree 0 matched.length (by rw [List.drop_zero, ← hsource, hsome])
            rw [hbefore, List.length_cons] at hzero ⊢
            omega
          obtain ⟨rest, rfl⟩ : ∃ rest, before = matched ++ rest :=
            (List.prefix_of_prefix_length_le ⟨_, hsource⟩ (List.prefix_append before after) hle).imp
              fun _ => Eq.symm
          rw [List.append_assoc] at hsource hfree
          obtain ⟨left, right, rfl, hleft, hright, hscan⟩ := ih (List.append_cancel_left hsource)
            fun place width hplace => by
              have hone :=
                hfree (matched.length + place) width (by rw [List.drop_length_add_append, hplace])
              rw [List.length_append] at hone
              omega
          exact ⟨.cut matched :: left, right, rfl,
            by rw [source_cut, hleft, hbefore], hright, hscan⟩

/-- Where no match begins every symbol is kept. -/
theorem Scanned.all_kept (hbounded : Bounded pattern) {word : List α}
    (hscanned : Scanned pattern (left ++ right)) (hsource : source left = word)
    (hfree : ∀ place < word.length, pattern ((word ++ source right).drop place) = none) :
    left = word.map .kept := by
  induction left generalizing word with
  | nil =>
      subst hsource
      rfl
  | cons segment left ih =>
      cases hscanned with
      | kept hnone hrest =>
          rename_i symbol
          subst hsource
          have hleft : left = (source left).map .kept := ih hrest rfl fun place hplace =>
            hfree (place + 1) (by rw [source_kept, List.length_cons]; omega)
          rw [source_kept, List.map_cons, ← hleft]
      | cut hsome hrest =>
          rename_i matched
          subst hsource
          have hpos := (hbounded _ _ hsome).1
          have hzero := hfree 0 (by rw [source_cut, List.length_append]; omega)
          rw [List.drop_zero, source_cut, List.append_assoc, ← source_append] at hzero
          exact nomatch hsome.symm.trans hzero

/-- A word apart from every match is kept as it stands. -/
theorem Scanned.split (hbounded : Bounded pattern) (hscanned : Scanned pattern segments)
    {before word after : List α}
    (hsource : source segments = before ++ (word ++ after))
    (hapart : Apart pattern (before ++ (word ++ after)) before.length
      (before.length + word.length)) :
    ∃ left right, segments = left ++ (word.map .kept ++ right) ∧ source left = before
      ∧ source right = after
      ∧ Scanned pattern right := by
  obtain ⟨left, rest, rfl, hleft, hrest, hscan⟩ :=
    hscanned.split_at hsource fun place width hplace => by
    have hone := hapart place width hplace
    omega
  have hshift : ∀ place width, pattern ((word ++ after).drop place) = some width →
      word.length ≤ place := by
    intro place width hplace
    have hone := hapart (before.length + place) width (by rw [List.drop_length_add_append, hplace])
    have hpos := (hbounded _ _ hplace).1
    omega
  obtain ⟨middle, right, rfl, hmiddle, hright, hscan'⟩ :=
    hscan.split_at hrest fun place width hplace =>
    .inr (hshift place width hplace)
  refine ⟨left, right, ?_, hleft, hright, hscan'⟩
  rw [hscan.all_kept hbounded hmiddle fun place hplace => ?_]
  rw [hright]
  cases hmatch : pattern ((word ++ after).drop place) with
  | none => rfl
  | some width => exact absurd (hshift place width hmatch) (not_le.mpr hplace)

/-- What a scan keeps is apart from every match, when matches that meet are nested. -/
theorem Scanned.apart_kept (hnested : Nested pattern) {word : List α}
    (hscanned : Scanned pattern (left ++ (word.map .kept ++ right))) :
    Apart pattern (source (left ++ (word.map .kept ++ right))) (source left).length
      ((source left).length + word.length) := by
  induction left with
  | nil =>
      intro place width hplace
      refine .inr ?_
      rw [source_nil, List.length_nil, Nat.zero_add]
      rw [List.nil_append] at hscanned hplace
      induction word generalizing place with
      | nil => exact Nat.zero_le _
      | cons symbol word ih =>
          rw [List.map_cons, List.cons_append] at hscanned hplace
          cases hscanned with
          | kept hnone hrest =>
              cases place with
              | zero => exact nomatch hnone.symm.trans hplace
              | succ place => exact Nat.succ_le_succ (ih hrest place hplace)
  | cons segment left ih =>
      intro place width hplace
      rw [List.cons_append] at hscanned hplace
      cases hscanned with
      | kept hnone hrest =>
          cases place with
          | zero => exact nomatch hnone.symm.trans hplace
          | succ place =>
              have hone := ih hrest place width hplace
              rw [source_kept, List.length_cons]
              omega
      | cut hsome hrest =>
          rename_i matched
          rw [source_cut, List.length_append]
          rcases Nat.lt_or_ge place matched.length with hinside | houtside
          · have hle := hnested _ _ place width hsome hinside hplace
            omega
          · obtain ⟨more, rfl⟩ := Nat.exists_eq_add_of_le houtside
            rw [source_cut, List.drop_length_add_append] at hplace
            have hone := ih hrest more width hplace
            omega

end Substitution
