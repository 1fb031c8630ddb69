import Quorum.PassageSpans

/-! The passages of a page that are kept for the judge (`evaluation`): the best-scoring ones first,
each if the result still fits, put together in page order. -/

namespace Quorum

/-- `PASSAGE_SEPARATOR`. -/
def passageSeparator : Text := " … ".toList

/-- `_PASSAGE_COMMON_WORDS`. -/
def passageCommonWords : List Text :=
  ["about", "after", "all", "also", "and", "any", "are", "been", "before", "being",
    "both", "but", "can", "could", "did", "does", "each", "for", "from", "had", "has",
    "have", "her", "his", "how", "into", "its", "may", "might", "more", "most", "must",
    "not", "only", "other", "our", "over", "per", "she", "should", "some", "such",
    "than", "that", "the", "their", "them", "then", "there", "these", "they", "this",
    "those", "under", "very", "via", "was", "were", "what", "when", "where", "which",
    "while", "who", "whom", "why", "will", "with", "would", "you", "your"].map String.toList

/-- The string methods, and the class `[^\\W_]`. -/
structure PassageTables extends TextTables where
  isWord : Char → Bool

/-- The cost of joining two kept passages. -/
def joinCost (spans : List (ℕ × ℕ)) (left right : ℕ) : ℤ :=
  if right = left + 1 then (spans.getD right (0, 0)).1 - (spans.getD left (0, 0)).2
  else passageSeparator.length

/-- What one more passage adds to the length, between the ones before and after it. -/
def insertCost (spans : List (ℕ × ℕ)) (before after : Option ℕ) (index : ℕ) : ℤ :=
  ((spans.getD index (0, 0)).2 - (spans.getD index (0, 0)).1)
    + (before.map fun before => joinCost spans before index).getD 0
    + (after.map fun after => joinCost spans index after).getD 0
    - (match before, after with
        | some before, some after => joinCost spans before after
        | _, _ => 0)

/-- The passages kept so far, in page order, and the length that their result has. -/
structure Picked where
  kept : List ℕ
  used : ℤ

def Picked.start : Picked := { kept := [], used := 0 }

/-- One passage, considered in score order. -/
def consider (spans : List (ℕ × ℕ)) (limit : ℕ) (picked : Picked) (index : ℕ) : Picked :=
  let below := picked.kept.takeWhile (· < index)
  let above := picked.kept.dropWhile (· < index)
  let cost := insertCost spans below.getLast? above.head? index
  if picked.used + cost ≤ limit then { kept := below ++ index :: above, used := picked.used + cost } else picked

/-- The runs of neighbouring passages; `run` is where the current one began. -/
def runsFrom (text : Text) (spans : List (ℕ × ℕ)) : Option ℕ → List ℕ → List Text
  | _, [] => []
  | run, index :: rest =>
      if rest.head? = some (index + 1) then runsFrom text spans (some (run.getD index)) rest
      else slice text (spans.getD (run.getD index) (0, 0)).1 (spans.getD index (0, 0)).2
        :: runsFrom text spans none rest

namespace PassageTables

variable (p : PassageTables)

/-- The runs of letters and digits: `_PASSAGE_WORD.findall`. -/
def wordRuns (text : Text) : List Text := (text.splitOnP fun ch => !p.isWord ch).filter (· ≠ [])

/-- `_passage_words`. -/
def passageWords (text : Text) : List Text :=
  ((p.wordRuns (p.lower text)).filter fun word => 3 ≤ word.length ∧ word ∉ passageCommonWords).dedup

/-- How many words each passage shares with the claims. -/
def scores (text : Text) (claims : List Text) (spans : List (ℕ × ℕ)) : List ℕ :=
  let claimWords := p.passageWords ([' '].intercalate claims)
  spans.map fun span => ((p.passageWords (slice text span.1 span.2)).filter (· ∈ claimWords)).length

/-- The order in which the passages are considered. -/
def scoreOrder (scores : List ℕ) : List ℕ :=
  (List.range scores.length).insertionSort fun left right =>
    scores.getD right 0 < scores.getD left 0 ∨ scores.getD left 0 = scores.getD right 0
      ∧ left ≤ right

/-- `pick_passages`. -/
def pickPassages (text : Text) (claims : List Text) (limit : ℕ) : Text :=
  if text.length ≤ limit then text
  else
    let spans := p.passages text
    let picked :=
      (scoreOrder (p.scores text claims spans)).foldl (consider spans limit) Picked.start
    passageSeparator.intercalate (runsFrom text spans none picked.kept)

end PassageTables

/-! ### What the result is -/

/-- What joins a passage to the kept one before it: the page's own text between neighbours, else the
separator. -/
def joint (text : Text) (spans : List (ℕ × ℕ)) (previous : Option ℕ) (index : ℕ) : Text :=
  match previous with
  | none => []
  | some before =>
      if index = before + 1 then slice text (spans.getD before (0, 0)).2 (spans.getD index (0, 0)).1
      else passageSeparator

/-- These passages in this order, each joined to the one before. -/
def assemble (text : Text) (spans : List (ℕ × ℕ)) : Option ℕ → List ℕ → Text
  | _, [] => []
  | previous, index :: rest =>
      joint text spans previous index
        ++ slice text (spans.getD index (0, 0)).1 (spans.getD index (0, 0)).2
        ++ assemble text spans (some index) rest

/-- The length of that text, by the costs. -/
def width (spans : List (ℕ × ℕ)) : Option ℕ → List ℕ → ℤ
  | _, [] => 0
  | previous, index :: rest =>
      (previous.map fun before => joinCost spans before index).getD 0
        + ((spans.getD index (0, 0)).2 - (spans.getD index (0, 0)).1)
          + width spans (some index) rest

/-- The kept passages are passages, in page order. -/
def InPageOrder (spans : List (ℕ × ℕ)) (kept : List ℕ) : Prop :=
  kept.Pairwise (· < ·) ∧ ∀ index ∈ kept, index < spans.length

section
variable {text : Text} {spans : List (ℕ × ℕ)} {start stop : ℕ}

theorem OrderedFrom.get (h : OrderedFrom stop start spans) {index : ℕ}
    (hindex : index < spans.length) :
    start ≤ (spans.getD index (0, 0)).1 ∧ (spans.getD index (0, 0)).1 < (spans.getD index (0, 0)).2
      ∧ (spans.getD index (0, 0)).2 ≤ stop := by
  induction spans generalizing start index with
  | nil => cases hindex
  | cons span rest ih =>
      obtain ⟨hstart, hspan, hstop, hrest⟩ := h
      cases index with
      | zero => exact ⟨hstart, hspan, hstop⟩
      | succ index =>
          have hlater := ih hrest (Nat.lt_of_succ_lt_succ hindex)
          rw [List.getD_cons_succ]
          exact ⟨by omega, hlater.2⟩

theorem OrderedFrom.neighbours (h : OrderedFrom stop start spans) {index : ℕ}
    (hindex : index + 1 < spans.length) :
    (spans.getD index (0, 0)).2 ≤ (spans.getD (index + 1) (0, 0)).1 := by
  induction spans generalizing start index with
  | nil => cases hindex
  | cons span rest ih =>
      obtain ⟨-, -, -, hrest⟩ := h
      cases index with
      | zero => exact (hrest.get (Nat.lt_of_succ_lt_succ hindex)).1
      | succ index => exact ih hrest (Nat.lt_of_succ_lt_succ hindex)

theorem slice_append {text : Text} {first middle last : ℕ} (hfirst : first ≤ middle)
    (hlast : middle ≤ last) :
    slice text first middle ++ slice text middle last = slice text first last := by
  have hdrop : text.drop middle = (text.drop first).drop (middle - first) := by
    rw [List.drop_drop, Nat.add_sub_cancel' hfirst]
  have hsum : last - first = (middle - first) + (last - middle) := by omega
  rw [slice, slice, slice, List.drop_take, List.drop_take, List.drop_take, hdrop, hsum,
    List.take_add]

theorem InPageOrder.tail {index : ℕ} {kept : List ℕ} (h : InPageOrder spans (index :: kept)) :
    InPageOrder spans kept :=
  ⟨h.1.of_cons, fun other hother => h.2 other (List.mem_cons_of_mem _ hother)⟩

theorem runsFrom_ne_nil (text : Text) (spans : List (ℕ × ℕ)) (run : Option ℕ) (index : ℕ)
    (rest : List ℕ) :
    runsFrom text spans run (index :: rest) ≠ [] := by
  induction rest generalizing run index with
  | nil => exact List.cons_ne_nil _ _
  | cons next rest ih =>
      rw [runsFrom]
      split_ifs
      · exact ih _ next
      · exact List.cons_ne_nil _ _

/-- The runs put together are the passages put together. -/
theorem intercalate_runsFrom (h : OrderedFrom text.length 0 spans) (rest : List ℕ) :
    ∀ (run : Option ℕ) (index : ℕ), InPageOrder spans (index :: rest) →
      (spans.getD (run.getD index) (0, 0)).1 ≤ (spans.getD index (0, 0)).1 →
      passageSeparator.intercalate (runsFrom text spans run (index :: rest))
        = slice text (spans.getD (run.getD index) (0, 0)).1 (spans.getD index (0, 0)).2
          ++ assemble text spans (some index) rest := by
  induction rest with
  | nil =>
      intro run index hkept hrun
      rw [runsFrom, if_neg (by simp), runsFrom, List.intercalate_singleton, assemble,
        List.append_nil]
  | cons next rest ih =>
      intro run index hkept hrun
      have hnext : next < spans.length := hkept.2 next (by simp)
      have hspan := h.get (hkept.2 index List.mem_cons_self)
      have hlater := h.get hnext
      rw [runsFrom, List.head?_cons, assemble, joint]
      by_cases hneighbours : next = index + 1
      · subst hneighbours
        have hgap := h.neighbours hnext
        rw [if_pos rfl, if_pos rfl, ih _ _ hkept.tail (by rw [Option.getD_some]; omega),
          Option.getD_some, ← List.append_assoc, slice_append hgap (by omega),
          slice_append (by omega) (by omega)]
      · rw [if_neg (fun heq => hneighbours (Option.some.inj heq)), if_neg hneighbours]
        obtain ⟨first, others, hruns⟩ :=
          List.exists_cons_of_ne_nil (runsFrom_ne_nil text spans none next rest)
        have hrest := ih none next hkept.tail le_rfl
        rw [hruns] at hrest ⊢
        rw [List.intercalate_cons_cons, hrest]
        simp only [Option.getD_none, List.append_assoc]

theorem intercalate_kept (h : OrderedFrom text.length 0 spans) {kept : List ℕ}
    (hkept : InPageOrder spans kept) :
    passageSeparator.intercalate (runsFrom text spans none kept)
      = assemble text spans none kept := by
  cases kept with
  | nil => rfl
  | cons index rest => exact intercalate_runsFrom h rest none index hkept le_rfl

theorem InPageOrder.filter {kept : List ℕ} (h : InPageOrder spans kept) (keep : ℕ → Bool) :
    InPageOrder spans (kept.filter keep) :=
  ⟨h.1.filter keep, fun index hindex => h.2 index (List.mem_of_mem_filter hindex)⟩

theorem intCast_length_joint (h : OrderedFrom text.length 0 spans) {previous : Option ℕ} {index : ℕ}
    (hindex : index < spans.length) :
    ((joint text spans previous index).length : ℤ)
      = (previous.map fun before => joinCost spans before index).getD 0 := by
  cases previous with
  | none => rfl
  | some before =>
      rw [joint, Option.map_some, Option.getD_some, joinCost]
      split_ifs with hneighbours
      · subst hneighbours
        have hgap := h.neighbours hindex
        have hspan := h.get hindex
        rw [length_slice (by omega)]
        omega
      · rfl

/-- The length of the passages put together is their width. -/
theorem length_assemble (h : OrderedFrom text.length 0 spans) (kept : List ℕ) :
    ∀ previous, InPageOrder spans kept →
      ((assemble text spans previous kept).length : ℤ) = width spans previous kept := by
  induction kept with
  | nil => exact fun previous _ => rfl
  | cons index rest ih =>
      intro previous hkept
      have hindex := hkept.2 index List.mem_cons_self
      have hspan := h.get hindex
      rw [assemble, width, ← ih (some index) hkept.tail, ← intCast_length_joint h hindex,
        List.length_append, List.length_append, length_slice hspan.2.2]
      push_cast
      omega

/-- One more passage costs what its joints say. -/
theorem width_insert (spans : List (ℕ × ℕ)) (below above : List ℕ) (index : ℕ) :
    ∀ previous : Option ℕ,
    width spans previous (below ++ index :: above)
      = width spans previous (below ++ above)
        + insertCost spans (below.getLast? <|> previous) above.head? index := by
  induction below with
  | nil =>
      intro previous
      cases above with
      | nil =>
          cases previous <;> simp [width, insertCost]
          ring
      | cons after above =>
          cases previous <;> simp [width, insertCost] <;> ring
  | cons first below ih =>
      intro previous
      have hlast : ((first :: below).getLast? <|> previous) = (below.getLast? <|> some first) := by
        rw [List.getLast?_cons]
        cases below.getLast? <;> rfl
      rw [List.cons_append, width, ih (some first), hlast, List.cons_append, width]
      ring

/-! ### What is kept -/

/-- What the loop keeps: passages in page order, and their length. -/
structure PickedWell (spans : List (ℕ × ℕ)) (limit : ℕ) (picked : Picked) : Prop where
  order : InPageOrder spans picked.kept
  used : picked.used = width spans none picked.kept
  fits : picked.used ≤ limit

variable {limit : ℕ} {picked : Picked} {index : ℕ}

theorem pickedWell_start (spans : List (ℕ × ℕ)) (limit : ℕ) : PickedWell spans limit Picked.start :=
  ⟨⟨List.Pairwise.nil, fun _ h => absurd h List.not_mem_nil⟩, rfl, Int.natCast_nonneg limit⟩

theorem insert_eq (kept : List ℕ) (index : ℕ) :
    kept.takeWhile (· < index) ++ index :: kept.dropWhile (· < index)
      = kept.orderedInsert (· ≤ ·) index := by
  rw [List.orderedInsert_eq_take_drop]
  simp only [not_le]

theorem InPageOrder.insert {kept : List ℕ} (h : InPageOrder spans kept)
    (hindex : index < spans.length) (hnew : index ∉ kept) :
    InPageOrder spans (kept.orderedInsert (· ≤ ·) index) := by
  have hperm := List.perm_orderedInsert (· ≤ ·) index kept
  constructor
  · have hle := (h.1.imp fun hlt => Nat.le_of_lt hlt).orderedInsert index kept
    have hnodup : (kept.orderedInsert (· ≤ ·) index).Nodup :=
      hperm.nodup_iff.mpr (List.nodup_cons.mpr ⟨hnew, h.1.imp fun hlt => Nat.ne_of_lt hlt⟩)
    exact (hle.and hnodup).imp fun hboth => lt_of_le_of_ne hboth.1 hboth.2
  · intro other hother
    rcases List.mem_cons.mp (hperm.mem_iff.mp hother) with rfl | hother
    · exact hindex
    · exact h.2 other hother

theorem consider_eq (spans : List (ℕ × ℕ)) (limit : ℕ) (picked : Picked) (index : ℕ)
    (hused : picked.used = width spans none picked.kept) :
    consider spans limit picked index
      = if width spans none (picked.kept.orderedInsert (· ≤ ·) index) ≤ limit then
          { kept := picked.kept.orderedInsert (· ≤ ·) index
            used := width spans none (picked.kept.orderedInsert (· ≤ ·) index) }
        else picked := by
  have hcost := width_insert spans (picked.kept.takeWhile (· < index)) (picked.kept.dropWhile (· < index)) index none
  rw [List.takeWhile_append_dropWhile, insert_eq, ← hused] at hcost
  have hnone : ((picked.kept.takeWhile (· < index)).getLast? <|> none)
      = (picked.kept.takeWhile (· < index)).getLast? := by
    cases (picked.kept.takeWhile (· < index)).getLast? <;> rfl
  rw [hnone] at hcost
  rw [consider, insert_eq, ← hcost]

theorem PickedWell.consider (h : PickedWell spans limit picked) (hindex : index < spans.length)
    (hnew : index ∉ picked.kept) : PickedWell spans limit (consider spans limit picked index) := by
  rw [consider_eq spans limit picked index h.used]
  split_ifs with hfits
  · exact ⟨h.order.insert hindex hnew, rfl, hfits⟩
  · exact h

/-- Considering a passage keeps what is kept, and adds at most the passage. -/
theorem mem_consider (h : PickedWell spans limit picked) {other : ℕ} :
    (other ∈ picked.kept → other ∈ (Quorum.consider spans limit picked index).kept)
      ∧ (other ∈ (Quorum.consider spans limit picked index).kept → other = index
          ∨ other ∈ picked.kept) := by
  rw [consider_eq spans limit picked index h.used]
  split_ifs
  · have hmem : other ∈ picked.kept.orderedInsert (· ≤ ·) index
        ↔ other = index ∨ other ∈ picked.kept := by
      rw [(List.perm_orderedInsert (· ≤ ·) index picked.kept).mem_iff, List.mem_cons]
    exact ⟨fun hother => hmem.mpr (Or.inr hother), hmem.mp⟩
  · exact ⟨id, Or.inr⟩

/-- What a run keeps, when it considers passages that it has not kept yet, each once. -/
theorem PickedWell.foldl (order : List ℕ) : ∀ {picked : Picked}, PickedWell spans limit picked →
    (∀ index ∈ order, index < spans.length ∧ index ∉ picked.kept) → order.Nodup →
    PickedWell spans limit (order.foldl (Quorum.consider spans limit) picked)
      ∧ (∀ other ∈ picked.kept, other ∈ (order.foldl (Quorum.consider spans limit) picked).kept)
      ∧ ∀ other ∈ (order.foldl (Quorum.consider spans limit) picked).kept, other ∈ order
          ∨ other ∈ picked.kept := by
  induction order with
  | nil => exact fun h _ _ => ⟨h, fun _ hother => hother, fun _ hother => Or.inr hother⟩
  | cons index order ih =>
      intro picked h hnew hnodup
      obtain ⟨hindex, hfresh⟩ := hnew index List.mem_cons_self
      obtain ⟨hout, hnodup⟩ := List.nodup_cons.mp hnodup
      have hlater : ∀ other ∈ order, other < spans.length
          ∧ other ∉ (Quorum.consider spans limit picked index).kept := by
        intro other hother
        obtain ⟨hlt, hother'⟩ := hnew other (List.mem_cons_of_mem _ hother)
        refine ⟨hlt, fun hmem => ?_⟩
        rcases (mem_consider h).2 hmem with rfl | hmem
        · exact hout hother
        · exact hother' hmem
      obtain ⟨hwell, hkeeps, honly⟩ := ih (h.consider hindex hfresh) hlater hnodup
      refine ⟨hwell, fun other hother => hkeeps other ((mem_consider h).1 hother),
        fun other hother => ?_⟩
      rcases honly other hother with hmem | hmem
      · exact Or.inl (List.mem_cons_of_mem _ hmem)
      · rcases (mem_consider h).2 hmem with rfl | hmem
        · exact Or.inl List.mem_cons_self
        · exact Or.inr hmem

/-- A passage that was left out did not fit when it was considered. -/
theorem left_out {before after : List ℕ}
    (hrange : ∀ other ∈ before ++ index :: after, other < spans.length)
    (hnodup : (before ++ index :: after).Nodup)
    (hout : index ∉ ((before ++ index :: after).foldl (Quorum.consider spans limit) .start).kept) :
    limit < width spans none
      ((((before ++ index :: after).foldl (Quorum.consider spans limit) .start).kept.filter
        (· ∈ before)).orderedInsert
        (· ≤ ·) index) := by
  obtain ⟨hbefore, hlater, hdisjoint⟩ := List.nodup_append.mp hnodup
  obtain ⟨hindexAfter, hafter⟩ := List.nodup_cons.mp hlater
  obtain ⟨hwell, -, honly⟩ := (pickedWell_start spans limit).foldl before
    (fun other hother => ⟨hrange other (List.mem_append_left _ hother), List.not_mem_nil⟩) hbefore
  have hsubset : ∀ other ∈ (before.foldl (Quorum.consider spans limit) .start).kept,
      other ∈ before :=
    fun other hother => (honly other hother).resolve_right List.not_mem_nil
  have hfresh : ∀ other ∈ index :: after, other < spans.length
      ∧ other ∉ (before.foldl (Quorum.consider spans limit) .start).kept := fun other hother =>
    ⟨hrange other (List.mem_append_right _ hother),
      fun hmem => hdisjoint other (hsubset other hmem) other hother rfl⟩
  obtain ⟨hfinal, hkeeps, hfrom⟩ := hwell.foldl (index :: after) hfresh hlater
  rw [List.foldl_append] at hout ⊢
  -- the passages kept of those considered before are those kept at that moment
  have hmoment : ((index :: after).foldl (Quorum.consider spans limit)
      (before.foldl (Quorum.consider spans limit) .start)).kept.filter (· ∈ before)
        = (before.foldl (Quorum.consider spans limit) .start).kept := by
    apply (hfinal.order.1.filter _).eq_of_mem_iff hwell.order.1
    intro other
    rw [List.mem_filter, decide_eq_true_eq]
    constructor
    · rintro ⟨hother, hmem⟩
      exact (hfrom other hother).resolve_left fun hlate => hdisjoint other hmem other hlate rfl
    · exact fun hother => ⟨hkeeps other hother, hsubset other hother⟩
  rw [hmoment]
  by_contra hfits
  apply hout
  obtain ⟨hindex, hnew⟩ := hfresh index List.mem_cons_self
  rw [List.foldl_cons]
  have hconsidered := (hwell.consider hindex hnew).foldl after (fun other hother => ?_) hafter
  · apply hconsidered.2.1
    rw [consider_eq _ _ _ _ hwell.used, if_pos (not_lt.mp hfits)]
    exact (List.perm_orderedInsert (· ≤ ·) index _).mem_iff.mpr List.mem_cons_self
  · refine ⟨(hfresh other (List.mem_cons_of_mem _ hother)).1, fun hmem => ?_⟩
    rcases (mem_consider hwell).2 hmem with rfl | hmem
    · exact hindexAfter hother
    · exact (hfresh other (List.mem_cons_of_mem _ hother)).2 hmem

end

namespace PassageTables

/-- The passages are considered from the best score to the worst, a tie going to the earlier one. -/
theorem scoreOrder_spec (scores : List ℕ) :
    (scoreOrder scores).Perm (List.range scores.length)
      ∧ (scoreOrder scores).Pairwise fun left right =>
        scores.getD right 0 < scores.getD left 0 ∨ scores.getD left 0 = scores.getD right 0
          ∧ left ≤ right := by
  refine ⟨List.perm_insertionSort _ _, ?_⟩
  have : Std.Total fun left right =>
      scores.getD right 0 < scores.getD left 0 ∨ scores.getD left 0 = scores.getD right 0
        ∧ left ≤ right :=
    ⟨fun left right => by omega⟩
  have : IsTrans ℕ fun left right =>
      scores.getD right 0 < scores.getD left 0 ∨ scores.getD left 0 = scores.getD right 0
        ∧ left ≤ right :=
    ⟨fun left middle right hleft hright => by omega⟩
  exact List.pairwise_insertionSort _ _

/-- A page that fits is kept whole. Otherwise what is kept is at most as long as the limit and
consists of passages in page order, neighbours joined by the page's text between them and others by
the separator; and a passage that is left out did not fit beside those kept when it was considered.
Every passage is considered once. -/
theorem pickPassages_spec (p : PassageTables) (text : Text) (claims : List Text) (limit : ℕ) :
    (text.length ≤ limit → p.pickPassages text claims limit = text)
      ∧ (limit < text.length →
        (p.pickPassages text claims limit).length ≤ limit
          ∧ ∃ kept, InPageOrder (p.passages text) kept
            ∧ p.pickPassages text claims limit = assemble text (p.passages text) none kept
            ∧ ∀ before index after, scoreOrder (p.scores text claims (p.passages text)) = before
                ++ index :: after →
              index ∉ kept →
              limit < (assemble text (p.passages text) none
                ((kept.filter (· ∈ before)).orderedInsert (· ≤ ·) index)).length)
      ∧ (scoreOrder (p.scores text claims (p.passages text))).Perm
          (List.range (p.passages text).length) := by
  have hall := (scoreOrder_spec (p.scores text claims (p.passages text))).1
  rw [scores, List.length_map, ← scores] at hall
  refine ⟨fun hshort => if_pos hshort, fun hlong => ?_, hall⟩
  have hspans := p.toTextTables.passages_ordered text
  have horder := (scoreOrder_spec (p.scores text claims (p.passages text))).1
  have hlength : (p.scores text claims (p.passages text)).length = (p.passages text).length :=
    List.length_map _
  have hrange : ∀ index ∈ scoreOrder (p.scores text claims (p.passages text)),
      index < (p.passages text).length := by
    intro index hindex
    rw [horder.mem_iff, hlength] at hindex
    exact List.mem_range.mp hindex
  have hnodup := horder.nodup_iff.mpr List.nodup_range
  have hpicked : p.pickPassages text claims limit
      = passageSeparator.intercalate (runsFrom text (p.passages text) none
      ((scoreOrder (p.scores text claims (p.passages text))).foldl
        (consider (p.passages text) limit) .start).kept) :=
    if_neg (Nat.not_le.mpr hlong)
  obtain ⟨hwell, -, -⟩ := (pickedWell_start (p.passages text) limit).foldl _
    (fun index hindex => ⟨hrange index hindex, List.not_mem_nil⟩) hnodup
  have hassembled : p.pickPassages text claims limit = assemble text (p.passages text) none
      ((scoreOrder (p.scores text claims (p.passages text))).foldl
        (consider (p.passages text) limit) .start).kept := by
    rw [hpicked]
    exact intercalate_kept hspans hwell.order
  refine ⟨?_, _, hwell.order, hassembled, fun before index after heq hout => ?_⟩
  · have hused := length_assemble hspans _ none hwell.order
    rw [← hassembled, ← hwell.used] at hused
    have hfits := hwell.fits
    omega
  · have hindex : index ∈ before ++ index :: after := List.mem_append_right _ List.mem_cons_self
    have hinserted := (hwell.order.filter (· ∈ before)).insert (hrange index (heq ▸ hindex))
      fun hmem => hout (List.mem_of_mem_filter hmem)
    rw [heq] at hrange hnodup hout hinserted ⊢
    have hleft := left_out hrange hnodup hout
    rw [← length_assemble hspans _ none hinserted] at hleft
    exact Int.ofNat_lt.mp hleft

/-- The tables on ASCII. -/
def asciiPassageTables : PassageTables := { TextTables.asciiTables with isWord := Char.isAlphanum }

/-- Three passages, of which the first and the last are about the claim. -/
def taxPage : Text :=
  "tax law ".toList ++ List.replicate 300 'a' ++ '\n' :: List.replicate 300 'b'
    ++ '\n' :: "tax ".toList
    ++ List.replicate 300 'c'

/-- At 620 characters the passage between the other two is left out. -/
theorem pickPassages_short_page :
    asciiPassageTables.pickPassages taxPage ["the tax law".toList] 620
        = "tax law ".toList ++ List.replicate 300 'a' ++ passageSeparator ++ "tax ".toList ++ List.replicate 300 'c'
      ∧ (asciiPassageTables.pickPassages taxPage ["the tax law".toList] 620).length ≤ 620
      ∧ asciiPassageTables.pickPassages taxPage ["the tax law".toList] 1000 = taxPage := by
  refine ⟨by decide +kernel, ?_, ?_⟩
  · exact ((pickPassages_spec asciiPassageTables taxPage ["the tax law".toList] 620).2.1
      (by decide +kernel)).1
  · exact (pickPassages_spec asciiPassageTables taxPage ["the tax law".toList] 1000).1
      (by decide +kernel)

end PassageTables

end Quorum
