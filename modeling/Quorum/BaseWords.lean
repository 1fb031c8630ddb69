import Quorum.BaseScan

/-! The words of a text: its longest pieces without a blank. Texts joined by a blank have the words
of all of them, and collapsing the blanks of a text keeps its words. -/

namespace Words

open Quorum

variable {α : Type*} (p : α → Bool)

/-- `text.split()`. -/
def words (text : List α) : List (List α) := (text.splitOnP p).filter fun piece => !piece.isEmpty

theorem ne_nil_of_mem_words {text word : List α} (h : word ∈ words p text) : word ≠ [] := by
  have hword := (List.mem_filter.mp h).2
  simpa using hword

theorem plain_of_mem_words {text word : List α} (h : word ∈ words p text) : ∀ letter ∈ word,
    p letter = false :=
  forall_mem_splitOnP p text word (List.mem_filter.mp h).1

@[simp]
theorem words_nil : words p ([] : List α) = [] := rfl

variable {p} {blank : α}

theorem words_append (hblank : p blank = true) (left right : List α) :
    words p (left ++ blank :: right) = words p left ++ words p right := by
  rw [words, List.splitOnP_append_cons left right hblank, List.filter_append, words, words]

/-- Joined texts have the words of each. -/
theorem words_join (hblank : p blank = true) (texts : List (List α)) :
    words p ([blank].intercalate texts) = texts.flatMap (words p) := by
  induction texts with
  | nil => rfl
  | cons text texts ih =>
      cases texts with
      | nil => simp
      | cons next texts =>
          rw [List.intercalate_cons_cons, List.append_assoc, List.singleton_append,
            words_append hblank, ih]
          rfl

/-- Words are the words of what they are joined to. -/
theorem words_join_words (hblank : p blank = true) (text : List α) :
    words p ([blank].intercalate (words p text)) = words p text := by
  by_cases hnil : words p text = []
  · rw [hnil]
    rfl
  · rw [words, (splitOnP_intercalate_iff hblank hnil).mpr fun word hword =>
      plain_of_mem_words p hword]
    exact List.filter_eq_self.mpr fun word hword => by simpa using ne_nil_of_mem_words p hword

theorem join_append {left right : List (List α)} (hleft : left ≠ []) (hright : right ≠ []) :
    [blank].intercalate (left ++ right) = [blank].intercalate left
      ++ blank :: [blank].intercalate right := by
  induction left with
  | nil => exact absurd rfl hleft
  | cons text left ih =>
      cases left with
      | nil => rw [List.singleton_append, List.intercalate_cons_of_ne_nil hright]; simp
      | cons next left =>
          rw [List.cons_append, List.cons_append, List.intercalate_cons_cons, ← List.cons_append,
            ih (List.cons_ne_nil _ _), List.intercalate_cons_cons]
          simp

/-- Groups that are not empty, each joined, and then joined. -/
theorem join_join {groups : List (List (List α))} (h : ∀ group ∈ groups, group ≠ []) :
    [blank].intercalate (groups.map [blank].intercalate) = [blank].intercalate groups.flatten := by
  induction groups with
  | nil => rfl
  | cons group groups ih =>
      have htail := ih fun other hother => h other (List.mem_cons_of_mem _ hother)
      cases groups with
      | nil => simp
      | cons next groups =>
          have hflat : (next :: groups).flatten ≠ [] := by
            rw [List.flatten_cons]
            exact List.append_ne_nil_of_left_ne_nil (h next (by simp)) _
          rw [List.flatten_cons, join_append (h group List.mem_cons_self) hflat, ← htail,
            List.map_cons, List.map_cons, List.intercalate_cons_cons, List.append_assoc,
            List.singleton_append]

/-- `" ".join(text.split())`. -/
def collapse (p : α → Bool) (blank : α) (text : List α) : List α :=
  [blank].intercalate (words p text)

theorem words_collapse (hblank : p blank = true) (text : List α) :
    words p (collapse p blank text) = words p text :=
  words_join_words hblank text

theorem collapse_collapse (hblank : p blank = true) (text : List α) :
    collapse p blank (collapse p blank text) = collapse p blank text := by
  rw [collapse, words_collapse hblank, collapse]

theorem words_eq_nil_of_collapse {text : List α} (h : collapse p blank text = []) :
    words p text = [] := by
  by_contra hne
  obtain ⟨word, rest, hwords⟩ := List.exists_cons_of_ne_nil hne
  have hword : word ≠ [] := ne_nil_of_mem_words p (by rw [hwords]; exact List.mem_cons_self)
  rw [collapse, hwords] at h
  cases rest with
  | nil => exact hword (by simpa using h)
  | cons next rest =>
      rw [List.intercalate_cons_cons, List.append_assoc] at h
      exact hword (List.append_eq_nil_iff.mp h).1

/-- Texts with the words of some others, joined, are what the others collapse to. -/
theorem join_of_words {texts : List (List α)} {text : List α} (hne : ∀ other ∈ texts, other ≠ [])
    (hcollapsed : ∀ other ∈ texts, collapse p blank other = other)
    (h : texts.flatMap (words p) = words p text) :
    [blank].intercalate texts = collapse p blank text := by
  have hgroups : texts.map (fun other => [blank].intercalate (words p other)) = texts :=
    (List.map_congr_left hcollapsed).trans (List.map_id' texts)
  calc [blank].intercalate texts
      = [blank].intercalate ((texts.map (words p)).map [blank].intercalate) := by
        rw [List.map_map]
        exact congrArg _ hgroups.symm
    _ = [blank].intercalate (texts.map (words p)).flatten := by
        apply join_join
        intro group hgroup
        obtain ⟨other, hother, rfl⟩ := List.mem_map.mp hgroup
        intro hnil
        apply hne other hother
        rw [← hcollapsed other hother, collapse, hnil]
        rfl
    _ = collapse p blank text := by rw [← List.flatMap_def, h, collapse]

end Words
