import Quorum.FenceForgery

/-! Neutralizing a text part by part: a plain character that no marker straddles divides the text
into parts that are neutralized on their own. -/

namespace Quorum

namespace UnicodeData

variable {u : UnicodeData}

theorem neutralizeDelimiters_eq (text : Text) :
    u.neutralizeDelimiters text
      = ((finditer markerLetters (u.letters text)).foldl
          (u.redactMatch text) ⟨[], 0⟩).pieces.flatten
        ++ text.drop ((finditer markerLetters (u.letters text)).foldl
          (u.redactMatch text) ⟨[], 0⟩).keptFrom := by
  rw [neutralizeDelimiters]
  split
  · next hnone =>
      rw [hnone]
      rfl
  · next found rest hfound =>
      rw [hfound]
      dsimp only
      rw [List.flatten_append, List.flatten_singleton]

theorem widenStart_congr {text text' : Text} {keptFrom keptFrom' offset : Nat}
    (hkept : ∀ start, offset + start + 1 > keptFrom ↔ start + 1 > keptFrom')
    (htext : ∀ start, text.getD (offset + start) ' ' = text'.getD start ' ')
    (hstop : u.widenStart text keptFrom offset = offset) (start : Nat) :
    u.widenStart text keptFrom (offset + start) = offset + u.widenStart text' keptFrom' start := by
  induction start with
  | zero =>
      rw [Nat.add_zero, hstop, widenStart, Nat.add_zero]
  | succ start ih =>
      rw [← Nat.add_assoc, widenStart, widenStart, htext]
      by_cases hmore : start + 1 > keptFrom' ∧ u.isBracket (text'.getD start ' ') = true
      · have hmore' : offset + start + 1 > keptFrom ∧ u.isBracket (text'.getD start ' ') = true :=
          ⟨(hkept start).mpr hmore.1, hmore.2⟩
        rw [if_pos hmore, if_pos hmore', ih]
      · have hmore' : ¬ (offset + start + 1 > keptFrom
            ∧ u.isBracket (text'.getD start ' ') = true) :=
          fun h => hmore ⟨(hkept start).mp h.1, h.2⟩
        rw [if_neg hmore, if_neg hmore', Nat.add_assoc]

theorem widenStart_append {left right : Text} {keptFrom start : Nat}
    (hstart : start ≤ left.length) :
    u.widenStart (left ++ right) keptFrom start = u.widenStart left keptFrom start := by
  induction start with
  | zero => rfl
  | succ start ih =>
      rw [widenStart, widenStart, List.getD_append _ _ _ _ hstart, ih (Nat.le_of_succ_le hstart)]

theorem widenEnd_shift (rest : Text) (offset : Nat) :
    ∀ stop, u.widenEnd rest (offset + stop) = offset + u.widenEnd rest stop := by
  induction rest with
  | nil => exact fun _ => rfl
  | cons ch rest ih =>
      intro stop
      rw [widenEnd, widenEnd]
      split
      · exact ih (stop + 1)
      · rfl

theorem widenEnd_append_plain {ch : Char} (hplain : u.isBracket ch = false) (left right : Text) :
    ∀ stop, u.widenEnd (left ++ ch :: right) stop = u.widenEnd left stop := by
  induction left with
  | nil =>
      intro stop
      simp [widenEnd, hplain]
  | cons other left ih =>
      intro stop
      rw [List.cons_append, widenEnd, widenEnd, ih]

theorem letterOrigin_left (left right : Text) {place : Nat}
    (hplace : place < (u.letters left).length) :
    (letterOrigin u.lettersOf (left ++ right)).getD place 0
      = (letterOrigin u.lettersOf left).getD place 0
      ∧ (letterOrigin u.lettersOf left).getD place 0 < left.length := by
  rw [letters] at hplace
  refine ⟨?_, (letterOrigin_spec u.lettersOf left place hplace).2.2⟩
  rw [letterOrigin_append, List.getD_append _ _ _ _ (by rw [letterOrigin_length]; exact hplace)]

theorem letterOrigin_right (left right : Text) {place : Nat}
    (hplace : place < (u.letters right).length) :
    (letterOrigin u.lettersOf (left ++ right)).getD ((u.letters left).length + place) 0
      = left.length + (letterOrigin u.lettersOf right).getD place 0 := by
  rw [letters] at hplace
  have hsize := letterOrigin_length u.lettersOf left
  rw [letterOrigin_append, List.getD_append_right _ _ _ _ (by rw [hsize, letters]; omega), hsize,
    letters, Nat.add_sub_cancel_left,
    List.getD_eq_getElem _ _ (by rw [List.length_map, letterOrigin_length]; exact hplace),
    List.getElem_map, List.getD_eq_getElem]

section parts
variable {left right : Text} {ch : Char}

/-- A match in the left part is redacted there, whatever follows. -/
theorem redactMatch_left (hplain : u.isBracket ch = false) {state : Redaction}
    (hkept : state.keptFrom ≤ left.length) {found : Nat × Nat} (hspan : found.1 < found.2)
    (hstop : found.2 ≤ (u.letters left).length) :
    u.redactMatch (left ++ ch :: right) state found = u.redactMatch left state found
      ∧ (u.redactMatch left state found).keptFrom ≤ left.length := by
  have hwithin : found.1 < (u.letters left).length ∧ found.2 - 1 < (u.letters left).length :=
    ⟨by omega, by omega⟩
  obtain ⟨hfirst, hfirstin⟩ := letterOrigin_left left (ch :: right) hwithin.1
  obtain ⟨hlast, hlastin⟩ := letterOrigin_left left (ch :: right) hwithin.2
  unfold redactMatch
  dsimp only
  rw [hfirst, hlast]
  revert hfirstin hlastin
  generalize (letterOrigin u.lettersOf left).getD found.1 0 = low
  generalize (letterOrigin u.lettersOf left).getD (found.2 - 1) 0 = high
  intro hlow hhigh
  have hstart := u.widenStart_le left state.keptFrom (max low state.keptFrom)
  have hend := (u.widenEnd_bounds (left.drop (max (high + 1) (max low state.keptFrom)))
    (max (high + 1) (max low state.keptFrom))).2
  rw [List.length_drop] at hend
  rw [widenStart_append (by omega), List.drop_append_of_le_length (by omega),
    widenEnd_append_plain hplain, List.take_append_of_le_length (by omega)]
  exact ⟨rfl, by omega⟩

theorem foldl_redactMatch_left (hplain : u.isBracket ch = false) {found' : List (Nat × Nat)} :
    ∀ {state : Redaction}, state.keptFrom ≤ left.length →
      (∀ found ∈ found', found.1 < found.2 ∧ found.2 ≤ (u.letters left).length) →
      found'.foldl (u.redactMatch (left ++ ch :: right)) state
        = found'.foldl (u.redactMatch left) state
        ∧ (found'.foldl (u.redactMatch left) state).keptFrom ≤ left.length := by
  induction found' with
  | nil => exact fun hkept _ => ⟨rfl, hkept⟩
  | cons found rest ih =>
      intro state hkept hspans
      obtain ⟨hspan, hstop⟩ := hspans found List.mem_cons_self
      obtain ⟨hsame, hnext⟩ : u.redactMatch (left ++ ch :: right) state found = _ ∧ _ :=
        redactMatch_left hplain hkept hspan hstop
      rw [List.foldl_cons, List.foldl_cons, hsame]
      exact ih hnext fun other hother => hspans other (List.mem_cons_of_mem _ hother)

/-- The redaction of the whole text beside that of its right part: nothing of the right part is read
yet, or both have read it as far. -/
def Continues (left written : Text) (ch : Char) (state state' : Redaction) : Prop :=
  (state.keptFrom ≤ left.length ∧ state' = ⟨[], 0⟩
      ∧ state.pieces.flatten ++ left.drop state.keptFrom = written)
    ∨ state.keptFrom = left.length + 1 + state'.keptFrom
      ∧ state.pieces.flatten = written ++ ch :: state'.pieces.flatten

/-- A match in the right part is redacted as it is there. -/
theorem Continues.redactMatch (hch : u.lettersOf ch = []) (hplain : u.isBracket ch = false)
    {written : Text} {state state' : Redaction} (h : Continues left written ch state state')
    {found : Nat × Nat} (hspan : found.1 < found.2) (hstop : found.2 ≤ (u.letters right).length) :
    Continues left written ch
      (u.redactMatch (left ++ ch :: right) state
        ((u.letters left).length + found.1, (u.letters left).length + found.2))
      (u.redactMatch right state' found) := by
  have hleft : u.letters (left ++ [ch]) = u.letters left := by
    rw [letters_append, letters, letters, List.flatMap_singleton, hch, List.append_nil]
  have htext : left ++ ch :: right = (left ++ [ch]) ++ right := by
    rw [List.append_assoc, List.singleton_append]
  have hwithin : found.1 < (u.letters right).length ∧ found.2 - 1 < (u.letters right).length :=
    ⟨by omega, by omega⟩
  have hfirst := letterOrigin_right (left ++ [ch]) right hwithin.1
  have hlast := letterOrigin_right (left ++ [ch]) right hwithin.2
  have hpred : (u.letters left).length + found.2 - 1 = (u.letters left).length
      + (found.2 - 1) := by omega
  rw [hleft, List.length_append, List.length_singleton, ← htext] at hfirst hlast
  unfold UnicodeData.redactMatch
  dsimp only
  rw [hpred, hfirst, hlast]
  generalize (letterOrigin u.lettersOf right).getD found.1 0 = low
  generalize (letterOrigin u.lettersOf right).getD (found.2 - 1) 0 = high
  have hhere : ∀ start, (left ++ ch :: right).getD (left.length + 1 + start) ' '
      = right.getD start ' ' := by
    intro start
    rw [htext, List.getD_append_right _ _ _ _ (by simp)]
    simp
  have hedge : u.widenStart (left ++ ch :: right) state.keptFrom (left.length + 1)
      = left.length + 1 := by
    rw [widenStart, List.getD_append_right _ _ _ _ (Nat.le_refl _), Nat.sub_self,
      List.getD_cons_zero, hplain]
    simp
  have hkept : ∀ start, left.length + 1 + start + 1 > state.keptFrom
      ↔ start + 1 > state'.keptFrom := by
    intro start
    rcases h with ⟨hinside, rfl, -⟩ | ⟨hpast, -⟩
    · exact iff_of_true (by omega) (Nat.succ_pos start)
    · omega
  have hstart : max (left.length + 1 + low) state.keptFrom = left.length + 1
      + max low state'.keptFrom := by
    rcases h with ⟨hinside, rfl, -⟩ | ⟨hpast, -⟩
    · rw [Nat.max_zero]
      omega
    · omega
  have hstop : max (left.length + 1 + high + 1) (left.length + 1 + max low state'.keptFrom)
      = left.length + 1 + max (high + 1) (max low state'.keptFrom) := by omega
  have hrest : ∀ stop, (left ++ ch :: right).drop (left.length + 1 + stop) = right.drop stop := by
    intro stop
    rw [htext, ← List.length_singleton (a := ch), ← List.length_append, List.drop_length_add_append]
  rw [hstart, hstop, hrest, widenStart_congr hkept hhere hedge, widenEnd_shift]
  generalize u.widenStart right state'.keptFrom (max low state'.keptFrom) = start
  generalize u.widenEnd (right.drop (max (high + 1) (max low state'.keptFrom)))
    (max (high + 1) (max low state'.keptFrom)) = stop
  refine Or.inr ⟨rfl, ?_⟩
  have hsize : left.length + 1 + stop - (left.length + 1 + start) = stop - start := by omega
  have htake : (left ++ ch :: right).take (left.length + 1 + start) = left
      ++ ch :: right.take start := by
    rw [Nat.add_assoc, List.take_length_add_append, Nat.add_comm 1 start, List.take_succ_cons]
  rw [hsize, htake, List.flatten_append, List.flatten_append]
  rcases h with ⟨hinside, rfl, hwritten⟩ | ⟨hpast, hwritten⟩
  · rw [List.drop_append_of_le_length hinside, ← hwritten]
    simp
  · rw [hpast, hwritten, Nat.add_assoc, List.drop_length_add_append, Nat.add_comm 1,
      List.drop_succ_cons]
    simp

theorem Continues.foldl (hch : u.lettersOf ch = []) (hplain : u.isBracket ch = false)
    {written : Text} {found' : List (Nat × Nat)} :
    ∀ {state state' : Redaction}, Continues left written ch state state' →
      (∀ found ∈ found', found.1 < found.2 ∧ found.2 ≤ (u.letters right).length) →
      Continues left written ch
        ((found'.map fun span => ((u.letters left).length + span.1,
          (u.letters left).length + span.2)).foldl
          (u.redactMatch (left ++ ch :: right)) state)
        (found'.foldl (u.redactMatch right) state') := by
  induction found' with
  | nil => exact fun h _ => h
  | cons found rest ih =>
      intro state state' h hspans
      obtain ⟨hspan, hstop⟩ := hspans found List.mem_cons_self
      rw [List.map_cons, List.foldl_cons, List.foldl_cons]
      exact ih (h.redactMatch hch hplain hspan hstop) fun other hother =>
        hspans other (List.mem_cons_of_mem _ hother)

/-- A plain character that no marker straddles divides the text into parts neutralized on their
own. -/
theorem neutralizeDelimiters_append (hch : u.lettersOf ch = []) (hplain : u.isBracket ch = false)
    (hnone : NoStraddle markerLetters (u.letters left) (u.letters right)) :
    u.neutralizeDelimiters (left ++ ch :: right)
      = u.neutralizeDelimiters left ++ ch :: u.neutralizeDelimiters right := by
  have hletters : u.letters (left ++ ch :: right) = u.letters left ++ u.letters right := by
    rw [letters_append]
    congr 1
    rw [letters, List.flatMap_cons, hch, List.nil_append, letters]
  have hspans :=
    fun found => (finditer_gapped markerLetters_ne_nil (u.letters left)).span_bounds found
  have hspans' :=
    fun found => (finditer_gapped markerLetters_ne_nil (u.letters right)).span_bounds found
  have hstart : Redaction.keptFrom ⟨[], 0⟩ ≤ left.length := Nat.zero_le _
  obtain ⟨hsame, hinside⟩ : List.foldl (u.redactMatch (left ++ ch :: right)) ⟨[], 0⟩ _ = _ ∧ _ :=
    foldl_redactMatch_left hplain hstart hspans
  have hwritten := neutralizeDelimiters_eq (u := u) left
  rw [neutralizeDelimiters_eq (left ++ ch :: right), hletters, finditer_append hnone,
    List.foldl_append, hsame]
  have hcontinues :=
    Continues.foldl (u := u) hch hplain (Or.inl ⟨hinside, rfl, hwritten.symm⟩) hspans'
  rw [neutralizeDelimiters_eq right]
  rcases hcontinues with ⟨hkept, hstate, hall⟩ | ⟨hkept, hall⟩
  · rw [hstate, List.drop_append_of_le_length hkept, ← List.append_assoc, hall]
    rfl
  · rw [hall, hkept, Nat.add_assoc, List.drop_length_add_append, Nat.add_comm 1,
      List.drop_succ_cons]
    simp

end parts

end UnicodeData

end Quorum
