import Mathlib.Data.List.Basic

/-! Reading a sequence line by line as it arrives in chunks: what is read does not depend on the
cuts. -/

namespace Quorum

variable {α σ : Type} [DecidableEq α]

/-- The complete lines of some items, without the breaks that end them, and the unfinished rest. -/
def cutLines (lineBreak : α) : List α → List (List α) × List α
  | [] => ([], [])
  | item :: items =>
      let cut := cutLines lineBreak items
      if item = lineBreak then ([] :: cut.1, cut.2)
      else
        match cut.1 with
        | [] => ([], item :: cut.2)
        | line :: lines => ((item :: line) :: lines, cut.2)

theorem cutLines_break (lineBreak : α) (items : List α) :
    cutLines lineBreak (lineBreak :: items)
      = ([] :: (cutLines lineBreak items).1, (cutLines lineBreak items).2) := by
  simp [cutLines]

theorem cutLines_cons_of_nil {lineBreak item : α} {items : List α} (hne : item ≠ lineBreak)
    (h : (cutLines lineBreak items).1 = []) :
    cutLines lineBreak (item :: items) = ([], item :: (cutLines lineBreak items).2) := by
  simp [cutLines, hne, h]

theorem cutLines_cons_of_cons {lineBreak item : α} {items line : List α} {lines : List (List α)}
    (hne : item ≠ lineBreak) (h : (cutLines lineBreak items).1 = line :: lines) :
    cutLines lineBreak (item :: items)
      = ((item :: line) :: lines, (cutLines lineBreak items).2) := by
  simp [cutLines, hne, h]

theorem cutLines_of_not_mem {lineBreak : α} {items : List α} (h : lineBreak ∉ items) :
    cutLines lineBreak items = ([], items) := by
  induction items with
  | nil => rfl
  | cons item items ih =>
      rw [List.mem_cons, not_or] at h
      have hrest := ih h.2
      rw [cutLines_cons_of_nil (Ne.symm h.1) (by rw [hrest]), hrest]

theorem cutLines_line {lineBreak : α} {line : List α} (h : lineBreak ∉ line) (items : List α) :
    cutLines lineBreak (line ++ lineBreak :: items)
      = (line :: (cutLines lineBreak items).1, (cutLines lineBreak items).2) := by
  induction line with
  | nil => exact cutLines_break lineBreak items
  | cons item line ih =>
      rw [List.mem_cons, not_or] at h
      have hrest := ih h.2
      rw [List.cons_append, cutLines_cons_of_cons (Ne.symm h.1) (by rw [hrest]), hrest]

/-- No break is left in the unfinished rest. -/
theorem not_mem_cutLines_rest (lineBreak : α) (items : List α) :
    lineBreak ∉ (cutLines lineBreak items).2 := by
  induction items with
  | nil => exact List.not_mem_nil
  | cons item items ih =>
      by_cases hbreak : item = lineBreak
      · rw [hbreak, cutLines_break]
        exact ih
      · cases hlines : (cutLines lineBreak items).1 with
        | nil =>
            rw [cutLines_cons_of_nil hbreak hlines, List.mem_cons, not_or]
            exact ⟨Ne.symm hbreak, ih⟩
        | cons line lines =>
            rw [cutLines_cons_of_cons hbreak hlines]
            exact ih

/-- What arrives later is cut together with the rest of what arrived before. -/
theorem cutLines_append (lineBreak : α) (items more : List α) :
    cutLines lineBreak (items ++ more)
      = ((cutLines lineBreak items).1
            ++ (cutLines lineBreak ((cutLines lineBreak items).2 ++ more)).1,
          (cutLines lineBreak ((cutLines lineBreak items).2 ++ more)).2) := by
  induction items with
  | nil => rfl
  | cons item items ih =>
      by_cases hbreak : item = lineBreak
      · rw [hbreak, List.cons_append, cutLines_break, cutLines_break, ih]
        rfl
      · cases hlines : (cutLines lineBreak items).1 with
        | nil =>
            rw [hlines, List.nil_append] at ih
            rw [cutLines_cons_of_nil hbreak hlines, List.cons_append, List.nil_append,
              List.cons_append]
            -- the unfinished line grows by the item, before and after
            cases hmore : (cutLines lineBreak ((cutLines lineBreak items).2 ++ more)).1 with
            | nil =>
                rw [cutLines_cons_of_nil hbreak (by rw [ih]; exact hmore),
                  cutLines_cons_of_nil hbreak hmore, ih]
            | cons line lines =>
                rw [cutLines_cons_of_cons hbreak (by rw [ih]; exact hmore),
                  cutLines_cons_of_cons hbreak hmore, ih]
        | cons line lines =>
            rw [hlines, List.cons_append] at ih
            rw [cutLines_cons_of_cons hbreak hlines, List.cons_append,
              cutLines_cons_of_cons hbreak (by rw [ih]), ih]
            rfl

/-- A reader that acts on each complete line and keeps the unfinished one. It acts on nothing before
it has seen as many items as the prologue needs, which it may then take off. -/
structure LineReader (σ α : Type) where
  state : σ
  buffer : List α
  started : Bool

namespace LineReader

variable (lineBreak : α) (onLine : σ → List α → σ) (need : ℕ) (strip : List α → List α)

/-- Act on the complete lines of the buffer. -/
def drain (state : σ) (buffer : List α) : LineReader σ α :=
  { state := (cutLines lineBreak buffer).1.foldl onLine state
    buffer := (cutLines lineBreak buffer).2
    started := true }

def feed (reader : LineReader σ α) (chunk : List α) : LineReader σ α :=
  let buffer := reader.buffer ++ chunk
  if reader.started then drain lineBreak onLine reader.state buffer
  else if buffer.length < need then { reader with buffer }
  else drain lineBreak onLine reader.state (strip buffer)

/-- The reader before anything arrived. -/
def fresh (state : σ) : LineReader σ α :=
  { state, buffer := [], started := false }

/-- A reader that has started keeps no complete line, and one that has not is short of items. -/
structure Settled (reader : LineReader σ α) : Prop where
  unfinished : reader.started → lineBreak ∉ reader.buffer
  short : ¬ reader.started → reader.buffer.length < need

variable {lineBreak onLine need strip}

omit [DecidableEq α] in
theorem settled_fresh (hneed : 0 < need) (state : σ) :
    Settled lineBreak need (fresh state : LineReader σ α) where
  unfinished := fun _ => List.not_mem_nil
  short := fun _ => hneed

theorem settled_drain (state : σ) (buffer : List α) :
    Settled lineBreak need (drain lineBreak onLine state buffer) where
  unfinished := fun _ => not_mem_cutLines_rest lineBreak buffer
  short := fun h => absurd rfl h

theorem settled_feed (reader : LineReader σ α) (chunk : List α) :
    Settled lineBreak need (feed lineBreak onLine need strip reader chunk) := by
  rw [feed]
  split_ifs with hstarted hshort
  · exact settled_drain _ _
  · exact ⟨fun h => absurd h hstarted, fun _ => hshort⟩
  · exact settled_drain _ _

theorem feed_drain (state : σ) (buffer chunk : List α) :
    feed lineBreak onLine need strip (drain lineBreak onLine state buffer) chunk
      = drain lineBreak onLine state (buffer ++ chunk) := by
  have hstarted : feed lineBreak onLine need strip (drain lineBreak onLine state buffer) chunk
      = drain lineBreak onLine (drain lineBreak onLine state buffer).state
          ((drain lineBreak onLine state buffer).buffer ++ chunk) := by
    rw [feed]
    exact if_pos rfl
  rw [hstarted, drain, drain, drain, cutLines_append lineBreak buffer chunk, List.foldl_append]

theorem feed_nil {reader : LineReader σ α} (h : Settled lineBreak need reader) :
    feed lineBreak onLine need strip reader [] = reader := by
  obtain ⟨state, buffer, started⟩ := reader
  rw [feed, List.append_nil]
  split_ifs with hstarted hshort
  · rw [drain, cutLines_of_not_mem (h.unfinished hstarted)]
    exact congrArg (LineReader.mk state buffer) hstarted.symm
  · rfl
  · exact absurd (h.short hstarted) hshort

/-- Two chunks in turn are one chunk, once what the prologue takes off is settled by its own
items. -/
theorem feed_append (hstrip : ∀ items more, need ≤ items.length →
    strip (items ++ more) = strip items ++ more) (reader : LineReader σ α) (chunk more : List α) :
    feed lineBreak onLine need strip (feed lineBreak onLine need strip reader chunk) more
      = feed lineBreak onLine need strip reader (chunk ++ more) := by
  by_cases hstarted : reader.started
  · have hfeed : ∀ items, feed lineBreak onLine need strip reader items
        = drain lineBreak onLine reader.state (reader.buffer ++ items) :=
      fun items => if_pos hstarted
    rw [hfeed, hfeed, feed_drain, List.append_assoc]
  · by_cases hshort : (reader.buffer ++ chunk).length < need
    · have hfirst : feed lineBreak onLine need strip reader chunk
          = { reader with buffer := reader.buffer ++ chunk } := by
        rw [feed, if_neg hstarted, if_pos hshort]
      rw [hfirst, feed, feed, List.append_assoc]
    · have hfirst : feed lineBreak onLine need strip reader chunk
          = drain lineBreak onLine reader.state (strip (reader.buffer ++ chunk)) := by
        rw [feed, if_neg hstarted, if_neg hshort]
      have hlong : ¬ (reader.buffer ++ (chunk ++ more)).length < need := by
        simp only [List.length_append] at hshort ⊢
        omega
      have hboth : feed lineBreak onLine need strip reader (chunk ++ more)
          = drain lineBreak onLine reader.state (strip (reader.buffer ++ chunk) ++ more) := by
        rw [feed, if_neg hstarted, if_neg hlong, ← List.append_assoc,
          hstrip _ _ (Nat.not_lt.mp hshort)]
      rw [hfirst, hboth, feed_drain]

/-- What is read of some chunks is what is read of them in one. -/
theorem foldl_feed (hstrip : ∀ items more, need ≤ items.length →
    strip (items ++ more) = strip items ++ more) {reader : LineReader σ α}
    (h : Settled lineBreak need reader) (chunks : List (List α)) :
    chunks.foldl (feed lineBreak onLine need strip) reader
      = feed lineBreak onLine need strip reader chunks.flatten := by
  induction chunks generalizing reader with
  | nil => exact (feed_nil h).symm
  | cons chunk chunks ih =>
      rw [List.foldl_cons, ih (settled_feed reader chunk), feed_append hstrip, List.flatten_cons]

end LineReader

end Quorum
