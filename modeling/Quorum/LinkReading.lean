import Quorum.LinkScan

/-! The scan against the text's reading: it records the reading's links, and the prose that it keeps
is the text with a space for each link that stands in no other. -/

namespace Quorum

open Bracket

namespace MarkerTables

variable {m : MarkerTables}

theorem targetShape_le (m : MarkerTables) (text : Text) (width : ℕ)
    (h : m.targetShape text = some width) : width ≤ text.length := by
  unfold targetShape at h
  split at h
  · next rest =>
      obtain rfl := Option.some.inj h
      have hspaces := (List.takeWhile_prefix m.isspace (l := rest)).length_le
      have hrun := (List.take_sublist 2000
        ((rest.drop (rest.takeWhile m.isspace).length).takeWhile m.inTarget)).length_le.trans
        (List.takeWhile_prefix m.inTarget).length_le
      rw [List.length_drop] at hrun
      generalize hrest : rest.drop ((rest.takeWhile m.isspace).length
        + (((rest.drop (rest.takeWhile m.isspace).length).takeWhile m.inTarget).take 2000).length)
          = after
      have hafter : after.length = rest.length - ((rest.takeWhile m.isspace).length
        + (((rest.drop (rest.takeWhile m.isspace).length).takeWhile
          m.inTarget).take 2000).length) := by
        rw [← hrest, List.length_drop]
      have htrailing := (List.takeWhile_prefix m.isspace (l := after)).length_le
      have hclosing : (after.takeWhile m.isspace).length
          + (if (after.drop (after.takeWhile m.isspace).length).head? = some ')' then 1 else 0)
            ≤ after.length := by
        split_ifs with hhead
        · have hpos := List.length_pos_of_ne_nil (List.ne_nil_of_mem (List.mem_of_head? hhead))
          rw [List.length_drop] at hpos
          omega
        · omega
      rw [List.length_cons]
      omega
  · cases h

/-- Brackets as the scan reads them, a link's target the trailer of its pair. -/
def signs (m : MarkerTables) : Signs Char :=
  { opener := '['
    closer := ']'
    trailer := m.targetShape
    distinct := by decide
    bounded := m.targetShape_le }

/-- The reading of a text from left to right. -/
def Reads (m : MarkerTables) (page : Page Char) (text : Text) : Prop :=
  page.WellRead m.signs false ∧ page.render m.signs = text

instance (m : MarkerTables) (page : Page Char) (text : Text) : Decidable (m.Reads page text) :=
  inferInstanceAs (Decidable (page.WellRead m.signs false ∧ page.render m.signs = text))

theorem exists_reads (m : MarkerTables) (text : Text) : ∃ page, m.Reads page text :=
  exists_page m.signs text

variable {text : Text}

/-- The scan goes on from a state to these links. -/
def Scans (m : MarkerTables) (text : Text) (scan : LinkScan) (spans : List LinkSpan) : Prop :=
  ∃ fuel, m.scanLoop text fuel scan = some spans

theorem scans_step {scan next : LinkScan} (h : m.scanStep text scan = some next)
    (spans : List LinkSpan) : m.Scans text scan spans ↔ m.Scans text next spans := by
  constructor
  · rintro ⟨fuel, hfuel⟩
    cases fuel with
    | zero => cases hfuel
    | succ fuel =>
        rw [scanLoop, h] at hfuel
        exact ⟨fuel, hfuel⟩
  · rintro ⟨fuel, hfuel⟩
    refine ⟨fuel + 1, ?_⟩
    rw [scanLoop, h]
    exact hfuel

theorem scans_done {scan : LinkScan} (h : m.scanStep text scan = none) {spans : List LinkSpan}
    (hscans : m.Scans text scan spans) : spans = scan.spans := by
  obtain ⟨fuel, hfuel⟩ := hscans
  cases fuel with
  | zero => cases hfuel
  | succ fuel =>
      rw [scanLoop, h] at hfuel
      exact (Option.some.inj hfuel).symm

theorem nextBracket_plain {before after : Text} {ch : Char} (h : isBracket ch = false) :
    nextBracket (before ++ ch :: after) before.length
      = nextBracket (before ++ ch :: after) (before.length + 1) := by
  have hdrop : (before ++ ch :: after).drop (before.length + 1) = after := by
    rw [← List.drop_drop, List.drop_left]
    rfl
  rw [nextBracket, nextBracket, List.drop_left, hdrop, List.findIdx?_cons, h]
  cases after.findIdx? isBracket with
  | none => rfl
  | some offset =>
      simp only [Bool.false_eq_true, if_false, Option.map_some, Option.some.injEq]
      omega

theorem nextBracket_bracket {before after : Text} {ch : Char} (h : isBracket ch = true) :
    nextBracket (before ++ ch :: after) before.length = some before.length := by
  rw [nextBracket, List.drop_left, List.findIdx?_cons, h]
  rfl

section
variable {before after : Text} {index : ℕ}

/-- Plain characters are passed over. -/
theorem scans_plain {ch : Char} (htext : text = before ++ ch :: after) (hindex : before.length = index)
    (h : isBracket ch = false) (opens : List ℕ) (found spans : List LinkSpan) :
    m.Scans text { index, opens, spans := found } spans
      ↔ m.Scans text { index := index + 1, opens, spans := found } spans := by
  subst htext hindex
  have hstep : m.scanStep (before ++ ch :: after) { index := before.length, opens, spans := found }
      = m.scanStep (before ++ ch :: after) { index := before.length + 1, opens, spans := found } := by
    rw [scanStep, scanStep, nextBracket_plain h]
    have hlength : before.length < (before ++ ch :: after).length := by
      rw [List.length_append, List.length_cons]
      omega
    rw [if_pos hlength]
    by_cases hend : before.length + 1 < (before ++ ch :: after).length
    · rw [if_pos hend]
    · rw [if_neg hend]
      cases hnext : nextBracket (before ++ ch :: after) (before.length + 1) with
      | none => rfl
      | some bracket =>
          have := nextBracket_eq_some hnext
          omega
  cases hnext : m.scanStep (before ++ ch :: after)
    { index := before.length + 1, opens, spans := found } with
  | some next => rw [scans_step (hstep.trans hnext), scans_step hnext]
  | none =>
      constructor
      · intro hscans
        obtain rfl := scans_done (hstep.trans hnext) hscans
        exact ⟨1, by rw [scanLoop, hnext]⟩
      · intro hscans
        obtain rfl := scans_done hnext hscans
        exact ⟨1, by rw [scanLoop, hstep, hnext]⟩

theorem scans_opener (htext : text = before ++ '[' :: after) (hindex : before.length = index)
    (opens : List ℕ) (found spans : List LinkSpan) :
    m.Scans text { index, opens, spans := found } spans
      ↔ m.Scans text { index := index + 1, opens := index :: opens, spans := found } spans := by
  subst htext hindex
  apply scans_step
  have hlength : before.length < (before ++ '[' :: after).length := by
    rw [List.length_append, List.length_cons]
    omega
  have hget : (before ++ '[' :: after)[before.length]? = some '[' := by simp
  rw [scanStep, if_pos hlength, nextBracket_bracket rfl]
  simp only [hget, if_true]

/-- What the scan does at a closing bracket. -/
theorem scanStep_closer (htext : text = before ++ ']' :: after) (hindex : before.length = index)
    (opens : List ℕ) (found : List LinkSpan) :
    m.scanStep text { index, opens, spans := found }
      = match opens with
        | [] => some { index := index + 1, opens := [], spans := found }
        | start :: opens =>
            match m.targetShape after with
            | none => some { index := index + 1, opens, spans := found }
            | some width =>
                some
                  { index := index + 1 + width
                    opens
                    spans := found ++ [{ start, stop := index + 1 + width
                                         url := m.linkTarget after }] } := by
  subst htext hindex
  have hlength : before.length < (before ++ ']' :: after).length := by
    rw [List.length_append, List.length_cons]
    omega
  have hget : (before ++ ']' :: after)[before.length]? = some ']' := by simp
  have hdrop : (before ++ ']' :: after).drop (before.length + 1) = after := by
    rw [← List.drop_drop, List.drop_left]
    rfl
  have hne : ¬ some ']' = some '[' := by decide
  rw [scanStep, if_pos hlength, nextBracket_bracket rfl]
  simp only [hget, hdrop, if_neg hne]
  cases opens with
  | nil => rfl
  | cons start opens => cases m.targetShape after <;> rfl

end

/-- Where a link stands. -/
def place (span : LinkSpan) : ℕ × ℕ := (span.start, span.stop)

/-- A pair of brackets whose inside the scan passes over: the target behind it makes it a link. -/
theorem scans_pair {before inner after : Text} {index : ℕ} {inside : List LinkSpan}
    (htext : text = before ++ '[' :: (inner ++ ']' :: after)) (hindex : before.length = index)
    (hinside : ∀ opens found spans,
      m.Scans text { index := index + 1, opens, spans := found } spans
        ↔ m.Scans text { index := index + 1 + inner.length, opens,
                         spans := found ++ inside } spans)
    (opens : List ℕ) (found spans : List LinkSpan) :
    m.Scans text { index, opens, spans := found } spans
      ↔ m.Scans text
        (match m.targetShape after with
          | none => { index := index + inner.length + 2, opens, spans := found ++ inside }
          | some width =>
              { index := index + inner.length + 2 + width
                opens
                spans := found ++ inside
                  ++ [{ start := index, stop := index + inner.length + 2 + width
                        url := m.linkTarget after }] }) spans := by
  have hclose : text = (before ++ '[' :: inner) ++ ']' :: after := by
    rw [htext]
    simp
  have hat : (before ++ '[' :: inner).length = index + 1 + inner.length := by
    rw [List.length_append, List.length_cons, hindex]
    omega
  have hnext : index + 1 + inner.length + 1 = index + inner.length + 2 := by omega
  have hstep := scanStep_closer (m := m) hclose hat (index :: opens) (found ++ inside)
  rw [hnext] at hstep
  rw [scans_opener htext hindex, hinside]
  cases htarget : m.targetShape after with
  | none =>
      simp only [htarget] at hstep
      rw [scans_step hstep]
  | some width =>
      simp only [htarget] at hstep
      rw [scans_step hstep]

/-- Over closed prose the scan finds its links and leaves the open brackets as they were. -/
theorem scans_prose (prose : Prose Char) :
    ∀ (index : ℕ) (before after : Text), text = before ++ (prose.render m.signs ++ after) →
      before.length = index → prose.WellRead m.signs after →
      ∃ links : List LinkSpan, links.map place = prose.spans m.signs index
        ∧ links.map LinkSpan.url = (prose.links m.signs after).map (fun link => m.linkTarget link.2)
        ∧ ∀ opens found spans, m.Scans text { index, opens, spans := found } spans
          ↔ m.Scans text { index := index + (prose.render m.signs).length, opens,
                           spans := found ++ links } spans := by
  induction prose with
  | nil =>
      intro index before after htext hindex hread
      refine ⟨[], rfl, rfl, fun opens found spans => ?_⟩
      rw [List.append_nil]
      rfl
  | char ch rest ih =>
      intro index before after htext hindex hread
      obtain ⟨hopener, hcloser, hrest⟩ := hread
      have hplain : isBracket ch = false := by
        rw [isBracket, Bool.or_eq_false_iff]
        exact ⟨beq_false_of_ne hopener, beq_false_of_ne hcloser⟩
      have hlength : (before ++ [ch]).length = index + 1 := by
        rw [List.length_append, hindex]
        rfl
      obtain ⟨links, hlinks, hurls, hscans⟩ :=
        ih (index + 1) (before ++ [ch]) after (by rw [htext]; simp [Prose.render]) hlength hrest
      refine ⟨links, hlinks, hurls, fun opens found spans => ?_⟩
      rw [scans_plain htext hindex hplain, hscans, Prose.render, List.length_cons,
        Nat.add_right_comm, Nat.add_assoc]
  | group inner rest ihinner ihrest =>
      intro index before after htext hindex hread
      obtain ⟨hinner, htrailer, hrest⟩ := hread
      have hopen : text = before
          ++ '[' :: (inner.render m.signs ++ ']' :: (rest.render m.signs ++ after)) := by
        rw [htext, Prose.render]
        simp [signs]
      obtain ⟨inside, hinside, hinsideUrls, hscansInner⟩ := ihinner (index + 1) (before ++ ['['])
        (']' :: (rest.render m.signs ++ after)) (by rw [hopen]; simp) (by simp [hindex]) hinner
      obtain ⟨links, hlinks, hurls, hscansRest⟩ :=
        ihrest (index + (inner.render m.signs).length + 2)
        (before ++ '[' :: (inner.render m.signs ++ [']'])) after (by rw [hopen]; simp)
        (by simp [hindex]; omega) hrest
      refine ⟨inside ++ links,
        by rw [List.map_append, hinside, hlinks]; rfl, ?_, fun opens found spans => ?_⟩
      · rw [List.map_append, hinsideUrls, hurls, Prose.links, List.map_append]
        rfl
      have hnone : m.targetShape (rest.render m.signs ++ after) = none := htrailer
      rw [scans_pair hopen hindex hscansInner, hnone]
      dsimp only
      rw [hscansRest, List.append_assoc]
      have hlength : index + (inner.render m.signs).length + 2 + (rest.render m.signs).length
          = index + ((Prose.group inner rest).render m.signs).length := by
        rw [Prose.render, List.length_cons, List.length_append, List.length_cons]
        omega
      rw [hlength]
  | link inner trailer rest ihinner ihrest =>
      intro index before after htext hindex hread
      obtain ⟨hinner, htrailer, hrest⟩ := hread
      have hopen : text = before ++ '[' :: (inner.render m.signs
          ++ ']' :: (trailer ++ (rest.render m.signs ++ after))) := by
        rw [htext, Prose.render]
        simp [signs]
      obtain ⟨inside, hinside, hinsideUrls, hscansInner⟩ := ihinner (index + 1) (before ++ ['['])
        (']' :: (trailer ++ (rest.render m.signs ++ after))) (by rw [hopen]; simp)
        (by simp [hindex]) hinner
      obtain ⟨links, hlinks, hurls, hscansRest⟩ := ihrest
        (index + (inner.render m.signs).length + 2 + trailer.length)
        (before ++ '[' :: (inner.render m.signs ++ ']' :: trailer)) after (by rw [hopen]; simp)
        (by simp [hindex]; omega) hrest
      refine ⟨inside ++
          { start := index
            stop := index + (inner.render m.signs).length + 2 + trailer.length
            url := m.linkTarget (trailer ++ (rest.render m.signs ++ after)) } :: links,
        ?_, ?_, fun opens found spans => ?_⟩
      · rw [List.map_append, List.map_cons, hinside, hlinks]
        rfl
      · rw [List.map_append, List.map_cons, hinsideUrls, hurls, Prose.links, List.map_append,
          List.map_cons]
        rfl
      have hsome : m.targetShape (trailer ++ (rest.render m.signs ++ after))
          = some trailer.length :=
        htrailer
      rw [scans_pair hopen hindex hscansInner, hsome]
      dsimp only
      rw [hscansRest]
      have hlength : index + (inner.render m.signs).length + 2 + trailer.length
            + (rest.render m.signs).length
          = index + ((Prose.link inner trailer rest).render m.signs).length := by
        rw [Prose.render, List.length_cons, List.length_append, List.length_cons,
          List.length_append]
        omega
      rw [hlength]
      simp only [List.append_assoc, List.cons_append, List.nil_append]

/-- The scan of a page: only at its top level does a closing bracket find none open. -/
theorem scans_page (page : Page Char) :
    ∀ (isOpen : Bool) (index : ℕ) (before : Text), text = before ++ page.render m.signs →
      before.length = index → page.WellRead m.signs isOpen →
      ∀ opens, (isOpen = false → opens = []) →
      ∀ found spans, m.Scans text { index, opens, spans := found } spans →
        spans.map place = found.map place ++ page.spans m.signs index
          ∧ spans.map LinkSpan.url
            = found.map LinkSpan.url ++ (page.links m.signs).map fun link =>
                m.linkTarget link.2 := by
  induction page with
  | done prose =>
      intro isOpen index before htext hindex hread opens hopens found spans hscans
      have hclosed : text = before ++ (prose.render m.signs ++ []) := by
        rw [htext, List.append_nil]
        rfl
      obtain ⟨links, hlinks, hurls, hprose⟩ :=
        scans_prose prose index before [] hclosed hindex hread
      rw [hprose] at hscans
      have hend : m.scanStep text
          { index := index + (prose.render m.signs).length, opens,
            spans := found ++ links } = none := by
        rw [scanStep, if_neg]
        rw [htext, List.length_append, hindex]
        exact lt_irrefl _
      rw [scans_done hend hscans, List.map_append, List.map_append, hlinks, hurls]
      exact ⟨rfl, rfl⟩
  | closed prose rest ih =>
      intro isOpen index before htext hindex hread opens hopens found spans hscans
      obtain ⟨rfl, hread, hrest⟩ := hread
      obtain rfl := hopens rfl
      obtain ⟨links, hlinks, hurls, hprose⟩ :=
        scans_prose prose index before (']' :: rest.render m.signs) htext
        hindex hread
      have hclose : text = (before ++ prose.render m.signs) ++ ']' :: rest.render m.signs := by
        rw [htext, List.append_assoc]
        rfl
      have hat : (before ++ prose.render m.signs).length = index
          + (prose.render m.signs).length := by
        rw [List.length_append, hindex]
      have hstep := scanStep_closer (m := m) hclose hat [] (found ++ links)
      rw [hprose, scans_step hstep] at hscans
      have hrender : text = (before ++ prose.render m.signs ++ [']']) ++ rest.render m.signs := by
        rw [hclose]
        simp
      have hlength : (before ++ prose.render m.signs ++ [']']).length
          = index + (prose.render m.signs).length + 1 := by
        rw [List.length_append, hat]
        rfl
      obtain ⟨hplaces, hrestUrls⟩ := ih false _ _ hrender hlength hrest [] (fun _ => rfl) _ _ hscans
      constructor
      · rw [hplaces, List.map_append, hlinks, List.append_assoc]
        rfl
      · rw [hrestUrls, List.map_append, hurls, List.append_assoc, Page.links, List.map_append]
        rfl
  | opened prose rest ih =>
      intro isOpen index before htext hindex hread opens hopens found spans hscans
      obtain ⟨hread, hrest⟩ := hread
      obtain ⟨links, hlinks, hurls, hprose⟩ :=
        scans_prose prose index before ('[' :: rest.render m.signs) htext
        hindex hread
      have hopen : text = (before ++ prose.render m.signs) ++ '[' :: rest.render m.signs := by
        rw [htext, List.append_assoc]
        rfl
      have hat : (before ++ prose.render m.signs).length = index
          + (prose.render m.signs).length := by
        rw [List.length_append, hindex]
      rw [hprose, scans_opener hopen hat] at hscans
      have hrender : text = (before ++ prose.render m.signs ++ ['[']) ++ rest.render m.signs := by
        rw [hopen]
        simp
      have hlength : (before ++ prose.render m.signs ++ ['[']).length
          = index + (prose.render m.signs).length + 1 := by
        rw [List.length_append, hat]
        rfl
      obtain ⟨hplaces, hrestUrls⟩ :=
        ih true _ _ hrender hlength hrest _ (fun h => Bool.noConfusion h) _ _ hscans
      constructor
      · rw [hplaces, List.map_append, hlinks, List.append_assoc]
        rfl
      · rw [hrestUrls, List.map_append, hurls, List.append_assoc, Page.links, List.map_append]
        rfl

/-! ### What is left of the prose -/

/-- A link is left as a space. -/
def blankItem : Item Char → Char
  | .char ch => ch
  | .link _ => ' '

/-- The prose with a space for each link. -/
def blanked (items : List (Item Char)) : Text := items.map blankItem

/-- Up to an index the removal has left this text, the part after its last span included. -/
def Kept (text : Text) (kept : ℕ × Text) (index : ℕ) (left : Text) : Prop :=
  kept.1 ≤ index ∧ kept.2 ++ (text.drop kept.1).take (index - kept.1) = left

section
variable {kept : ℕ × Text} {index : ℕ} {left : Text}

theorem Kept.char {before after : Text} {ch : Char} (htext : text = before ++ ch :: after)
    (hindex : before.length = index) (h : Kept text kept index left) :
    Kept text kept (index + 1) (left ++ [ch]) := by
  obtain ⟨hle, rfl⟩ := h
  refine ⟨Nat.le_succ_of_le hle, ?_⟩
  have hget : (text.drop kept.1)[index - kept.1]? = some ch := by
    rw [List.getElem?_drop, Nat.add_sub_cancel' hle, htext, ← hindex]
    simp
  rw [Nat.succ_sub hle, List.take_add_one, hget, List.append_assoc]
  rfl

theorem Kept.span (stop : ℕ) (h : Kept text kept index left) (hstop : index ≤ stop) :
    Kept text (dropSpan text kept (index, stop)) stop (left ++ [' ']) := by
  obtain ⟨hle, rfl⟩ := h
  rw [dropSpan, if_pos hle]
  refine ⟨max_le (hle.trans hstop) le_rfl, ?_⟩
  dsimp only
  rw [max_eq_right (hle.trans hstop), Nat.sub_self, List.take_zero, List.append_nil]

/-- Links within a link go with it. -/
theorem foldl_dropSpan_within (spans : List (ℕ × ℕ))
    (h : ∀ span ∈ spans, span.1 < kept.1 ∧ span.2 ≤ kept.1) :
    spans.foldl (dropSpan text) kept = kept := by
  induction spans with
  | nil => rfl
  | cons span spans ih =>
      obtain ⟨hstart, hstop⟩ := h span List.mem_cons_self
      rw [List.foldl_cons, dropSpan, if_neg (Nat.not_le.mpr hstart), max_eq_left hstop]
      exact ih fun other hother => h other (List.mem_cons_of_mem _ hother)

/-- The removal leaves the items of a closed prose. -/
theorem kept_prose (prose : Prose Char) :
    ∀ (kept : ℕ × Text) (index : ℕ) (left before after : Text),
      text = before ++ (prose.render m.signs ++ after) → before.length = index →
      Kept text kept index left →
      Kept text ((prose.places m.signs index).foldl (dropSpan text) kept)
        (index + (prose.render m.signs).length) (left ++ blanked (prose.items m.signs)) := by
  induction prose with
  | nil =>
      intro kept index left before after htext hindex h
      rw [Prose.items, blanked, List.map_nil, List.append_nil]
      exact h
  | char ch rest ih =>
      intro kept index left before after htext hindex h
      have hrest : text = (before ++ [ch]) ++ (rest.render m.signs ++ after) := by
        rw [htext]
        simp [Prose.render]
      have hlength : (before ++ [ch]).length = index + 1 := by
        rw [List.length_append, hindex]
        rfl
      have := ih kept (index + 1) _ _ after hrest hlength (h.char htext hindex)
      rw [List.append_assoc, Nat.add_right_comm] at this
      exact this
  | group inner rest ihinner ihrest =>
      intro kept index left before after htext hindex h
      have hopen : text = before
          ++ '[' :: (inner.render m.signs ++ ']' :: (rest.render m.signs ++ after)) := by
        rw [htext, Prose.render]
        simp [signs]
      have hat : (before ++ ['[']).length = index + 1 := by
        rw [List.length_append, hindex]
        rfl
      have hin :=
        ihinner kept (index + 1) _ (before ++ ['[']) (']' :: (rest.render m.signs ++ after))
        (by rw [hopen]; simp) hat (h.char hopen hindex)
      have hclosing : (before ++ '[' :: inner.render m.signs).length
          = index + 1 + (inner.render m.signs).length := by
        simp only [List.length_append, List.length_cons, hindex]
        omega
      have hclose : text
          = (before ++ '[' :: inner.render m.signs) ++ ']' :: (rest.render m.signs ++ after) := by
        rw [hopen]
        simp
      have hout := ihrest _ (index + 1 + (inner.render m.signs).length + 1) _
        (before ++ '[' :: (inner.render m.signs ++ [']'])) after (by rw [hopen]; simp)
        (by simp [hindex]; omega) (hin.char hclose hclosing)
      have hlength : index + 1 + (inner.render m.signs).length + 1 + (rest.render m.signs).length
          = index + ((Prose.group inner rest).render m.signs).length := by
        rw [Prose.render, List.length_cons, List.length_append, List.length_cons]
        omega
      have hitems : left ++ blanked ((Prose.group inner rest).items m.signs)
          = left ++ ['['] ++ blanked (inner.items m.signs) ++ [']']
              ++ blanked (rest.items m.signs) := by
        simp [Prose.items, blanked, blankItem, signs]
      have hplaces : (Prose.group inner rest).places m.signs index
          = inner.places m.signs (index + 1)
            ++ rest.places m.signs (index + 1 + (inner.render m.signs).length + 1) := by
        rw [Prose.places, Nat.add_right_comm index 1]
      rw [hitems, hplaces, List.foldl_append, ← hlength]
      exact hout
  | link inner trailer rest ihinner ihrest =>
      intro kept index left before after htext hindex h
      have hopen : text = before ++ '[' :: (inner.render m.signs
          ++ ']' :: (trailer ++ (rest.render m.signs ++ after))) := by
        rw [htext, Prose.render]
        simp [signs]
      have hspan := h.span (index + (inner.render m.signs).length + 2 + trailer.length) (by omega)
      have hkept : (dropSpan text kept
          (index, index + (inner.render m.signs).length + 2 + trailer.length)).1
            = index + (inner.render m.signs).length + 2 + trailer.length := by
        rw [dropSpan, if_pos h.1]
        exact max_eq_right (by have := h.1; omega)
      have hwithin : (inner.places m.signs (index + 1)).foldl (dropSpan text) (dropSpan text kept
          (index, index + (inner.render m.signs).length + 2 + trailer.length))
            = dropSpan text kept
                (index, index + (inner.render m.signs).length + 2 + trailer.length) := by
        apply foldl_dropSpan_within
        intro span hspan
        have := inner.places_within _ span hspan
        rw [hkept]
        omega
      have hout := ihrest _ _ _ (before ++ '[' :: (inner.render m.signs ++ ']' :: trailer)) after
        (by rw [hopen]; simp) (by simp [hindex]; omega) hspan
      have hlength : index + (inner.render m.signs).length + 2 + trailer.length
            + (rest.render m.signs).length
          = index + ((Prose.link inner trailer rest).render m.signs).length := by
        rw [Prose.render, List.length_cons, List.length_append, List.length_cons,
          List.length_append]
        omega
      have hitems : left ++ blanked ((Prose.link inner trailer rest).items m.signs)
          = left ++ [' '] ++ blanked (rest.items m.signs) := by
        simp [Prose.items, blanked, blankItem]
      rw [hitems, Prose.places, List.foldl_cons, List.foldl_append, hwithin, ← hlength]
      exact hout

/-- The prose and the bracket after it. -/
theorem kept_prose_sign (prose : Prose Char) {before after : Text} {sign : Char}
    (htext : text = before ++ (prose.render m.signs ++ sign :: after))
    (hindex : before.length = index) (h : Kept text kept index left) :
    Kept text ((prose.places m.signs index).foldl (dropSpan text) kept)
      (index + (prose.render m.signs).length + 1)
        (left ++ blanked (prose.items m.signs) ++ [sign]) := by
  have hprose := kept_prose prose kept index left before _ htext hindex h
  have hsign : text = (before ++ prose.render m.signs) ++ sign :: after := by
    rw [htext, List.append_assoc]
  have hlength : (before ++ prose.render m.signs).length = index
      + (prose.render m.signs).length := by
    rw [List.length_append, hindex]
  exact hprose.char hsign hlength

/-- The removal leaves the items of a page. -/
theorem kept_page (page : Page Char) :
    ∀ (kept : ℕ × Text) (index : ℕ) (left before : Text), text = before ++ page.render m.signs →
      before.length = index → Kept text kept index left →
      Kept text ((page.places m.signs index).foldl (dropSpan text) kept) text.length
        (left ++ blanked (page.items m.signs)) := by
  induction page with
  | done prose =>
      intro kept index left before htext hindex h
      have hclosed : text = before ++ (prose.render m.signs ++ []) := by
        rw [htext, List.append_nil]
        rfl
      have hprose := kept_prose prose kept index left before [] hclosed hindex h
      have hlength : text.length = index + (prose.render m.signs).length := by
        rw [htext, List.length_append, hindex]
        rfl
      rw [hlength]
      exact hprose
  | closed prose rest ih =>
      intro kept index left before htext hindex h
      have hsign := kept_prose_sign prose htext hindex h
      have hrest : text = (before ++ prose.render m.signs ++ [']']) ++ rest.render m.signs := by
        rw [htext, Page.render]
        simp [signs]
      have hlength : (before ++ prose.render m.signs ++ [']']).length
          = index + (prose.render m.signs).length + 1 := by
        simp only [List.length_append, hindex, List.length_singleton]
      have hitems : left ++ blanked ((Page.closed prose rest).items m.signs)
          = left ++ blanked (prose.items m.signs) ++ [']'] ++ blanked (rest.items m.signs) := by
        simp [Page.items, blanked, blankItem, signs]
      rw [hitems, Page.places, List.foldl_append]
      exact ih _ _ _ _ hrest hlength hsign
  | opened prose rest ih =>
      intro kept index left before htext hindex h
      have hsign := kept_prose_sign prose htext hindex h
      have hrest : text = (before ++ prose.render m.signs ++ ['[']) ++ rest.render m.signs := by
        rw [htext, Page.render]
        simp [signs]
      have hlength : (before ++ prose.render m.signs ++ ['[']).length
          = index + (prose.render m.signs).length + 1 := by
        simp only [List.length_append, hindex, List.length_singleton]
      have hitems : left ++ blanked ((Page.opened prose rest).items m.signs)
          = left ++ blanked (prose.items m.signs) ++ ['['] ++ blanked (rest.items m.signs) := by
        simp [Page.items, blanked, blankItem, signs]
      rw [hitems, Page.places, List.foldl_append]
      exact ih _ _ _ _ hrest hlength hsign

end

/-- The scan in terms of the reading: the URLs of its links, and its items. -/
theorem scanLinks_eq {page : Page Char} (hread : m.Reads page text) :
    ∃ urls, m.scanLinks text = some (urls, blanked (page.items m.signs))
      ∧ ∀ url, url ∈ urls ↔ ∃ link ∈ page.links m.signs, m.linkTarget link.2 = some url := by
  obtain ⟨hread, rfl⟩ := hread
  obtain ⟨spans, hspans⟩ := exists_scanLoop m (page.render m.signs)
    ((page.render m.signs).length + 1) .initial (Nat.lt_succ_of_le (Nat.sub_le _ _))
  obtain ⟨hplaces, hurls⟩ : spans.map place = page.spans m.signs 0
      ∧ spans.map LinkSpan.url = (page.links m.signs).map fun link => m.linkTarget link.2 :=
    scans_page page false 0 [] rfl rfl hread [] (fun _ => rfl) [] spans ⟨_, hspans⟩
  have hsorted : (spans.insertionSort fun left right => left.start ≤ right.start).map place
      = page.places m.signs 0 := by
    rw [← page.spans_sorted, ← hplaces]
    exact List.map_insertionSort _ _ place spans fun _ _ _ _ => Iff.rfl
  have hkept : Kept (page.render m.signs)
      ((page.places m.signs 0).foldl (dropSpan (page.render m.signs))
      (0, [])) (page.render m.signs).length ([] ++ blanked (page.items m.signs)) :=
    kept_page page (0, []) 0 [] [] rfl rfl ⟨le_rfl, rfl⟩
  have hdrop : dropSpans (page.render m.signs) (page.places m.signs 0)
      = blanked (page.items m.signs) := by
    rw [dropSpans, ← List.nil_append (blanked _), ← hkept.2, List.take_of_length_le]
    rw [List.length_drop]
  refine ⟨(spans.insertionSort fun left right => left.start ≤ right.start).filterMap LinkSpan.url,
    ?_, fun url => ?_⟩
  · rw [scanLinks, hspans, Option.map_some]
    dsimp only
    rw [← hdrop, ← hsorted]
    rfl
  · have hmem : some url ∈ spans.map LinkSpan.url
        ↔ some url ∈ (page.links m.signs).map fun link => m.linkTarget link.2 := by rw [hurls]
    rw [List.mem_map, List.mem_map] at hmem
    simpa only [List.mem_filterMap, List.mem_insertionSort] using hmem

end MarkerTables

end Quorum
