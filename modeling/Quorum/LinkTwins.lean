import Quorum.SourceUrls

/-! The links that the census reads against those that source rows are minted from. The census reads
brackets at any depth; the fallback of the provider reads a pattern, and a link without a twin there
has no row. -/

namespace Quorum

/-! ### The fallback's pattern -/

/-- An inline link as `_INLINE_MARKDOWN_LINK_RE` spells it. -/
structure InlineLink (isspace : Char → Bool) (matched anchor url : Text) : Prop where
  spelled : matched = '[' :: (anchor ++ ']' :: '(' :: (url ++ [')']))
  anchored : anchor ≠ [] ∧ ']' ∉ anchor
  address : ∃ scheme body, url = scheme ++ body
    ∧ (scheme = "https://".toList ∨ scheme = "http://".toList)
    ∧ body ≠ [] ∧ ∀ ch ∈ body, isspace ch = false ∧ ch ≠ ')'

variable {isspace : Char → Bool} {text anchor url : Text} {width : ℕ}

theorem takeWhile_stop {α : Type} {q : α → Bool} {before : List α} {stop : α}
    (hbefore : ∀ a ∈ before, q a = true) (hstop : q stop = false) (after : List α) :
    (before ++ stop :: after).takeWhile q = before := by
  rw [List.takeWhile_append_of_pos hbefore, List.takeWhile_cons_of_neg (Bool.eq_false_iff.mp hstop),
    List.append_nil]

/-- A text is cut at its first stop in one way. -/
theorem first_stop_inj {before before' after after' : Text} {stop : Char} (h : stop ∉ before)
    (h' : stop ∉ before') (heq : before ++ stop :: after = before' ++ stop :: after') :
    before = before' ∧ after = after' := by
  have hplain : ∀ {part : Text}, stop ∉ part → ∀ ch ∈ part, decide (ch ≠ stop) = true := by
    rintro part hpart ch hch
    rw [decide_eq_true_eq]
    rintro rfl
    exact hpart hch
  have hhead : before = before' := by
    rw [← takeWhile_stop (hplain h) (decide_eq_false (not_not.mpr rfl)) after, heq,
      takeWhile_stop (hplain h') (decide_eq_false (not_not.mpr rfl))]
  subst hhead
  exact ⟨rfl, (List.cons.inj (List.append_cancel_left heq)).2⟩

theorem InlineLink.no_paren {matched : Text} (h : InlineLink isspace matched anchor url) :
    ')' ∉ url := by
  obtain ⟨scheme, body, rfl, hscheme, -, hbody⟩ := h.address
  rw [List.mem_append, not_or]
  refine ⟨?_, fun hmem => (hbody _ hmem).2 rfl⟩
  rcases hscheme with rfl | rfl
  · decide
  · decide

theorem schemeLength_eq_some {n : ℕ} : MarkerTables.schemeLength text = some n
    ↔ ∃ scheme rest, text = scheme ++ rest
        ∧ (scheme = "https://".toList ∨ scheme = "http://".toList)
      ∧ scheme.length = n := by
  rw [MarkerTables.schemeLength]
  constructor
  · intro h
    split_ifs at h with hsecure hplain
    · obtain ⟨rest, hrest⟩ := List.isPrefixOf_iff_prefix.mp hsecure
      exact ⟨_, rest, hrest.symm, .inl rfl, Option.some.inj h⟩
    · obtain ⟨rest, hrest⟩ := List.isPrefixOf_iff_prefix.mp hplain
      exact ⟨_, rest, hrest.symm, .inr rfl, Option.some.inj h⟩
  · rintro ⟨scheme, rest, rfl, hscheme, rfl⟩
    rcases hscheme with rfl | rfl
    · rw [if_pos (List.isPrefixOf_iff_prefix.mpr (List.prefix_append _ _))]
      rfl
    · rw [if_neg ?_, if_pos (List.isPrefixOf_iff_prefix.mpr (List.prefix_append _ _))]
      · rfl
      · rw [List.isPrefixOf_iff_prefix]
        rintro ⟨tail, htail⟩
        have hfifth : some 's' = some ':' := congrArg (fun l : Text => l[4]?) htail
        exact absurd hfifth (by decide)

theorem scheme_width (text : Text) :
    (if "https://".toList.isPrefixOf text then 8
      else if "http://".toList.isPrefixOf text then 7 else 0)
      = (MarkerTables.schemeLength text).getD 0 := by
  rw [MarkerTables.schemeLength]
  split_ifs <;> rfl

theorem takeWhile_append_drop {α : Type} (q : α → Bool) (l : List α) :
    l.takeWhile q ++ l.drop (l.takeWhile q).length = l :=
  (List.prefix_iff_eq_append.mp (List.takeWhile_prefix q)).symm ▸ rfl

/-- What the pattern takes is an inline link at the head of the text. -/
theorem inlineLink_of_linkAt (h : linkAt isspace text = some (anchor, url, width)) :
    ∃ matched rest, text = matched ++ rest ∧ matched.length = width
      ∧ InlineLink isspace matched anchor url := by
  unfold linkAt at h
  split at h
  · next rest =>
    dsimp only at h
    split at h
    · next target htarget =>
      set found := rest.takeWhile (· ≠ ']') with hfound
      have hrest : rest = found ++ ']' :: '(' :: target := by
        rw [← htarget, takeWhile_append_drop]
      rw [scheme_width] at h
      split at h
      · next after hafter =>
        split_ifs at h with hnone
        rw [not_or, not_or] at hnone
        obtain ⟨hanchor, hscheme, hbody⟩ := hnone
        obtain ⟨n, hlength⟩ : ∃ n, MarkerTables.schemeLength target = some n := by
          cases hlength : MarkerTables.schemeLength target with
          | none => exact absurd (by rw [hlength]; rfl) hscheme
          | some n => exact ⟨n, rfl⟩
        obtain ⟨scheme, tail, rfl, hspelled, rfl⟩ := schemeLength_eq_some.mp hlength
        rw [hlength, Option.getD_some, List.drop_left] at h hafter hbody
        set body := tail.takeWhile fun ch => !isspace ch && decide (ch ≠ ')') with hrun
        have htail : tail = body ++ ')' :: after := by
          rw [← hafter, takeWhile_append_drop]
        have htake : (scheme ++ tail).take (scheme.length + body.length) = scheme ++ body := by
          rw [List.take_length_add_append, htail, List.take_left]
        rw [htake, Option.some.injEq, Prod.mk.injEq, Prod.mk.injEq] at h
        obtain ⟨rfl, rfl, rfl⟩ := h
        refine ⟨'[' :: (found ++ ']' :: '(' :: (scheme ++ body ++ [')'])), after, ?_, ?_, rfl,
          ⟨hanchor, ?_⟩, scheme, body, rfl, hspelled, hbody, ?_⟩
        · rw [hrest, htail]
          simp only [List.cons_append, List.append_assoc, List.nil_append]
        · simp only [List.length_cons, List.length_append, List.length_nil]
          omega
        · intro hmem
          exact absurd (List.mem_takeWhile_imp hmem) (by decide)
        · intro ch hch
          have hin := List.mem_takeWhile_imp hch
          rwa [Bool.and_eq_true, Bool.not_eq_true', decide_eq_true_eq] at hin
      · cases h
    · cases h
  · cases h

/-- The pattern takes an inline link that the text begins with. -/
theorem InlineLink.linkAt {matched : Text} (h : InlineLink isspace matched anchor url)
    (rest : Text) :
    Quorum.linkAt isspace (matched ++ rest) = some (anchor, url, matched.length) := by
  obtain ⟨rfl, ⟨hanchor, hclosed⟩, scheme, body, rfl, hscheme, hbody, hin⟩ := h
  have hplain : ∀ ch ∈ anchor, decide (ch ≠ ']') = true := by
    intro ch hch
    rw [decide_eq_true_eq]
    rintro rfl
    exact hclosed hch
  have hrun : ((body ++ [')']) ++ rest).takeWhile (fun ch => !isspace ch && ch ≠ ')') = body := by
    rw [List.append_assoc]
    refine takeWhile_stop ?_ ?_ _
    · intro ch hch
      obtain ⟨hspace, hparen⟩ := hin ch hch
      rw [hspace, decide_eq_true hparen]
      rfl
    · rw [decide_eq_false (by decide), Bool.and_false]
  have htext : '[' :: (anchor ++ ']' :: '(' :: (scheme ++ body ++ [')'])) ++ rest
      = '[' :: (anchor ++ ']' :: '(' :: (scheme ++ (body ++ [')'] ++ rest))) := by
    simp only [List.cons_append, List.append_assoc]
  have hwidth : MarkerTables.schemeLength (scheme ++ (body ++ [')'] ++ rest)) = some scheme.length :=
    schemeLength_eq_some.mpr ⟨scheme, _, rfl, hscheme, rfl⟩
  have hpos : scheme.length ≠ 0 := by
    rcases hscheme with rfl | rfl
    · decide
    · decide
  rw [htext, Quorum.linkAt]
  dsimp only
  rw [takeWhile_stop hplain (by decide), List.drop_left]
  split
  · next target htarget =>
    obtain ⟨-, htarget⟩ := List.cons.inj htarget
    obtain ⟨-, rfl⟩ := List.cons.inj htarget
    rw [scheme_width, hwidth, Option.getD_some, List.drop_left, hrun, List.append_assoc,
      List.drop_left, List.singleton_append]
    split
    · rw [if_neg (by rw [not_or, not_or]; exact ⟨hanchor, hpos, hbody⟩), ← List.append_assoc,
        ← List.length_append, List.take_left]
      simp only [List.length_cons, List.length_append, List.length_nil]
      rw [show anchor.length + scheme.length + body.length + 4
        = anchor.length + (scheme.length + body.length + (0 + 1) + 1 + 1) + 1 by omega]
    · next hnot => exact absurd rfl (hnot rest)
  · next hnot => exact absurd rfl (hnot _)

/-- The pattern takes the inline link at the head of the text. -/
theorem linkAt_iff : linkAt isspace text = some (anchor, url, width)
    ↔ ∃ matched rest, text = matched ++ rest ∧ matched.length = width
        ∧ InlineLink isspace matched anchor url := by
  refine ⟨inlineLink_of_linkAt, ?_⟩
  rintro ⟨matched, rest, rfl, rfl, hlink⟩
  exact hlink.linkAt rest

theorem linkAt_eq_none : linkAt isspace text = none
    ↔ ∀ matched rest anchor url, text = matched ++ rest →
        ¬ InlineLink isspace matched anchor url := by
  rw [Option.eq_none_iff_forall_ne_some]
  constructor
  · exact fun hnone matched rest anchor url htext hlink =>
      hnone (anchor, url, matched.length) (linkAt_iff.mpr ⟨matched, rest, htext, rfl, hlink⟩)
  · rintro hnot ⟨anchor, url, width⟩ hfound
    obtain ⟨matched, rest, htext, -, hlink⟩ := linkAt_iff.mp hfound
    exact hnot matched rest anchor url htext hlink

/-- The places that the pattern comes to in a text: past a symbol where no inline link begins, and
past an inline link that begins at such a place. -/
inductive ComesTo (isspace : Char → Bool) (text : Text) : ℕ → Prop
  | start : ComesTo isspace text 0
  | past {place : ℕ} {ch : Char} {rest : Text} (h : ComesTo isspace text place)
      (hhere : text.drop place = ch :: rest)
      (hnone : ∀ matched after anchor url,
        ch :: rest = matched ++ after → ¬ InlineLink isspace matched anchor url) :
      ComesTo isspace text (place + 1)
  | across {place : ℕ} {matched after anchor url : Text} (h : ComesTo isspace text place)
      (hhere : text.drop place = matched ++ after) (hlink : InlineLink isspace matched anchor url) :
      ComesTo isspace text (place + matched.length)

/-- An inline link of the text, at a place that none before it reaches across. -/
def HasInlineLink (isspace : Char → Bool) (text anchor url : Text) : Prop :=
  ∃ place matched after, ComesTo isspace text place ∧ text.drop place = matched ++ after
    ∧ InlineLink isspace matched anchor url

theorem inlineLinks_drop (isspace : Char → Bool) (skip : ℕ) (text : Text) :
    inlineLinks isspace skip text = inlineLinks isspace 0 (text.drop skip) := by
  induction skip generalizing text with
  | zero => rfl
  | succ skip ih =>
      cases text with
      | nil => rfl
      | cons ch rest => exact ih rest

theorem inlineLinks_past {ch : Char} {rest : Text}
    (hnone : ∀ matched after anchor url,
      ch :: rest = matched ++ after → ¬ InlineLink isspace matched anchor url) :
    inlineLinks isspace 0 (ch :: rest) = inlineLinks isspace 0 rest := by
  rw [inlineLinks, linkAt_eq_none.mpr hnone]

theorem inlineLinks_over {matched : Text} (hlink : InlineLink isspace matched anchor url)
    (after : Text) :
    inlineLinks isspace 0 (matched ++ after) = (anchor, url) :: inlineLinks isspace 0 after := by
  have hhere := linkAt_iff.mpr ⟨matched, after, rfl, rfl, hlink⟩
  obtain ⟨first, more, rfl⟩ : ∃ first more, matched = first :: more := ⟨_, _, hlink.spelled⟩
  rw [List.cons_append] at hhere ⊢
  rw [inlineLinks, hhere]
  dsimp only
  rw [inlineLinks_drop, List.length_cons, Nat.add_sub_cancel, List.drop_left]

/-- From a place that it comes to, the pattern goes on as from the start of a text. -/
theorem ComesTo.inlineLinks {place : ℕ} (h : ComesTo isspace text place) :
    ∃ before, Quorum.inlineLinks isspace 0 text = before
      ++ Quorum.inlineLinks isspace 0 (text.drop place) := by
  induction h with
  | start => exact ⟨[], rfl⟩
  | @past place ch rest _ hhere hnone ih =>
      obtain ⟨before, hbefore⟩ := ih
      refine ⟨before, ?_⟩
      rw [hbefore, ← List.drop_drop, hhere, inlineLinks_past hnone]
      rfl
  | @across place matched after anchor url _ hhere hlink ih =>
      obtain ⟨before, hbefore⟩ := ih
      refine ⟨before ++ [(anchor, url)], ?_⟩
      rw [hbefore, ← List.drop_drop, hhere, inlineLinks_over hlink, List.drop_left,
        List.append_assoc, List.singleton_append]

/-- The fallback's links are the inline links that its pattern comes to. -/
theorem mem_inlineLinks : (anchor, url) ∈ inlineLinks isspace 0 text
    ↔ HasInlineLink isspace text anchor url := by
  constructor
  · have hfrom : ∀ n place, text.length - place ≤ n → ComesTo isspace text place →
        (anchor, url) ∈ inlineLinks isspace 0 (text.drop place) →
        HasInlineLink isspace text anchor url := by
      intro n
      induction n with
      | zero =>
          intro place hn _ hmem
          rw [List.drop_eq_nil_of_le (by omega)] at hmem
          exact absurd hmem List.not_mem_nil
      | succ n ih =>
          intro place hn hreach hmem
          cases hdrop : text.drop place with
          | nil =>
              rw [hdrop] at hmem
              exact absurd hmem List.not_mem_nil
          | cons ch rest =>
              have hplace : place < text.length := by
                have hlength := congrArg List.length hdrop
                rw [List.length_drop, List.length_cons] at hlength
                omega
              by_cases hnone : ∀ matched after anchor url, ch :: rest = matched ++ after →
                  ¬ InlineLink isspace matched anchor url
              · rw [hdrop, inlineLinks_past hnone] at hmem
                refine ih (place + 1) (by omega) (hreach.past hdrop hnone) ?_
                rwa [← List.drop_drop, hdrop]
              · push Not at hnone
                obtain ⟨matched, after, anchor', url', hsplit, hlink⟩ := hnone
                have hpos : 0 < matched.length := by
                  rw [hlink.spelled]
                  exact Nat.succ_pos _
                have hover := hreach.across (hdrop.trans hsplit) hlink
                rw [hdrop, hsplit, inlineLinks_over hlink] at hmem
                rcases List.mem_cons.mp hmem with heq | hmore
                · obtain ⟨rfl, rfl⟩ := Prod.mk.inj heq
                  exact ⟨place, matched, after, hreach, hdrop.trans hsplit, hlink⟩
                · refine ih (place + matched.length) (by omega) hover ?_
                  rwa [← List.drop_drop, hdrop, hsplit, List.drop_left]
    exact fun hmem => hfrom text.length 0 le_rfl .start hmem
  · rintro ⟨place, matched, after, hreach, hhere, hlink⟩
    obtain ⟨before, hbefore⟩ := hreach.inlineLinks
    rw [hbefore, hhere, inlineLinks_over hlink]
    exact List.mem_append_right _ List.mem_cons_self

/-- The pattern comes to each place, or across it by an inline link that begins before it. -/
theorem comesTo_or_covered (isspace : Char → Bool) (text : Text) :
    ∀ place ≤ text.length, ComesTo isspace text place
      ∨ ∃ first matched after anchor url, ComesTo isspace text first
          ∧ text.drop first = matched ++ after
        ∧ InlineLink isspace matched anchor url ∧ first ≤ place
        ∧ place < first + matched.length := by
  intro place
  induction place with
  | zero => exact fun _ => .inl .start
  | succ place ih =>
      intro hplace
      rcases ih (Nat.le_of_succ_le hplace) with hreach | ⟨first, matched, after, anchor, url,
        hfirst, hhere, hlink, hle, hlt⟩
      · obtain ⟨ch, rest, hdrop⟩ := List.exists_cons_of_ne_nil
          (List.ne_nil_of_length_pos
            (show 0 < (text.drop place).length by rw [List.length_drop]; omega))
        by_cases hnone : ∀ matched after anchor url, ch :: rest = matched ++ after →
            ¬ InlineLink isspace matched anchor url
        · exact .inl (hreach.past hdrop hnone)
        · push Not at hnone
          obtain ⟨matched, after, anchor, url, hsplit, hlink⟩ := hnone
          refine .inr ⟨place, matched, after, anchor, url, hreach, hdrop.trans hsplit, hlink,
            Nat.le_succ _, ?_⟩
          rw [hlink.spelled, List.length_cons, List.length_append, List.length_cons]
          omega
      · rcases Nat.lt_or_ge (place + 1) (first + matched.length) with hinside | hover
        · exact .inr ⟨first, matched, after, anchor, url, hfirst, hhere, hlink,
            Nat.le_succ_of_le hle, hinside⟩
        · have hend : place + 1 = first + matched.length := by omega
          rw [hend]
          exact .inl (hfirst.across hhere hlink)

/-! ### The census's targets -/

/-- An address between parentheses, with spaces around it, as `_LINK_TARGET_RE` reads it behind a
pair of brackets. -/
structure Targets (isspace : Char → Bool) (behind url : Text) : Prop where
  spelled : ∃ before after rest, behind = '(' :: (before ++ (url ++ (after ++ ')' :: rest)))
    ∧ (∀ ch ∈ before, isspace ch = true) ∧ ∀ ch ∈ after, isspace ch = true
  address : ∃ scheme body, url = scheme ++ body
    ∧ (scheme = "https://".toList ∨ scheme = "http://".toList)
    ∧ body ≠ [] ∧ body.length ≤ 2000 ∧ ∀ ch ∈ body, isspace ch = false ∧ ch ≠ ')'

/-- What the census reads behind a pair is spelled there. -/
theorem targets_of_linkTarget {m : MarkerTables} (h : m.linkTarget text = some url) :
    Targets m.isspace text url := by
  unfold MarkerTables.linkTarget at h
  split at h
  · next rest =>
    obtain ⟨width, hwidth, h⟩ := Option.bind_eq_some_iff.mp h
    dsimp only at h
    split_ifs at h with hclosed
    obtain ⟨scheme, tail, htarget, hschemes, rfl⟩ := schemeLength_eq_some.mp hwidth
    have hrest : rest = rest.takeWhile m.isspace ++ (scheme ++ tail) := by
      rw [← htarget, List.takeWhile_append_dropWhile]
    rw [htarget, List.drop_left, List.take_left] at h
    rw [htarget, ← List.drop_drop, List.drop_left] at hclosed
    obtain ⟨hbody, hhead⟩ := hclosed
    set body := (tail.takeWhile m.inTarget).take 2000 with hrun
    have hprefix : body <+: tail := (List.take_prefix _ _).trans (List.takeWhile_prefix _)
    obtain ⟨more, hmore⟩ := hprefix
    have hdrop : tail.drop body.length = more := by rw [← hmore, List.drop_left]
    rw [hdrop] at hhead
    obtain ⟨after, hafter⟩ : ∃ after, more.dropWhile m.isspace = ')' :: after := by
      cases hmore : more.dropWhile m.isspace with
      | nil =>
          rw [hmore] at hhead
          cases hhead
      | cons ch after =>
          rw [hmore] at hhead
          exact ⟨after, by rw [Option.some.inj hhead]⟩
    refine ⟨⟨rest.takeWhile m.isspace, more.takeWhile m.isspace, after, ?_,
      fun ch hch => List.mem_takeWhile_imp hch, fun ch hch => List.mem_takeWhile_imp hch⟩,
      scheme, body, (Option.some.inj h).symm, hschemes, hbody, List.length_take_le _ _,
      fun ch hch => ?_⟩
    · rw [← Option.some.inj h, ← hafter, List.takeWhile_append_dropWhile, List.append_assoc, hmore,
        ← hrest]
    · have hin := List.mem_takeWhile_imp (List.mem_of_mem_take hch)
      rwa [MarkerTables.inTarget, Bool.and_eq_true, Bool.not_eq_true', bne_iff_ne] at hin
  · cases h

/-- The census reads an address that is spelled behind a pair. -/
theorem Targets.linkTarget {m : MarkerTables} (hparen : m.isspace ')' = false)
    (hscheme : m.isspace 'h' = false) (h : Targets m.isspace text url) :
    m.linkTarget text = some url := by
  obtain ⟨⟨before, after, rest, rfl, hbefore, hafter⟩, scheme, body, rfl, hschemes, hbody,
    hlong, hin⟩ := h
  have htarget : (before ++ ((scheme ++ body) ++ (after ++ ')' :: rest))).dropWhile m.isspace
      = scheme ++ (body ++ (after ++ ')' :: rest)) := by
    obtain ⟨more, hmore⟩ : ∃ more, scheme = 'h' :: more := by
      rcases hschemes with rfl | rfl
      · exact ⟨_, rfl⟩
      · exact ⟨_, rfl⟩
    rw [List.dropWhile_append, List.dropWhile_eq_nil_iff.mpr hbefore, List.isEmpty_nil, if_pos rfl,
      List.append_assoc, hmore, List.cons_append,
      List.dropWhile_cons_of_neg (Bool.eq_false_iff.mp hscheme)]
  have hrun : ∀ more, (∀ ch ∈ more, m.isspace ch = true) →
      (body ++ (more ++ ')' :: rest)).takeWhile m.inTarget = body := by
    intro more hmore
    have hall : ∀ ch ∈ body, m.inTarget ch = true := by
      intro ch hch
      obtain ⟨hspace, hch⟩ := hin ch hch
      rw [MarkerTables.inTarget, hspace, bne_iff_ne.mpr hch]
      rfl
    cases more with
    | nil =>
        exact takeWhile_stop hall
          (by rw [MarkerTables.inTarget, bne_self_eq_false, Bool.and_false]) rest
    | cons ch more =>
        refine takeWhile_stop hall ?_ _
        rw [MarkerTables.inTarget, hmore ch List.mem_cons_self]
        rfl
  rw [MarkerTables.linkTarget]
  dsimp only
  rw [htarget, schemeLength_eq_some.mpr ⟨scheme, _, rfl, hschemes, rfl⟩, Option.bind_some]
  rw [List.drop_left, hrun after hafter, List.take_of_length_le hlong, ← List.drop_drop,
    List.drop_left, List.drop_left, List.take_left, List.dropWhile_append,
    List.dropWhile_eq_nil_iff.mpr hafter, List.isEmpty_nil, if_pos rfl,
    List.dropWhile_cons_of_neg (Bool.eq_false_iff.mp hparen), if_pos ⟨hbody, rfl⟩]

/-- The census reads an address behind a pair just where one is spelled there. -/
theorem linkTarget_iff {m : MarkerTables} (hparen : m.isspace ')' = false)
    (hscheme : m.isspace 'h' = false) :
    m.linkTarget text = some url ↔ Targets m.isspace text url :=
  ⟨targets_of_linkTarget, Targets.linkTarget hparen hscheme⟩

/-! ### The rows -/

/-- The rows of the inline links hold just what is kept of their addresses. -/
theorem StreamTables.linkSources_url {t : StreamTables} {kept : Text} (links : List (Text × Text)) :
    ∀ seen, (∃ row ∈ t.linkSources seen links, row.url = kept)
      ↔ kept ∉ seen ∧ ∃ anchor url, (anchor, url) ∈ links
          ∧ t.sanitizeSourceUrl (t.strip url) = some kept := by
  induction links with
  | nil =>
      intro seen
      refine iff_of_false ?_ ?_
      · rintro ⟨row, hrow, -⟩
        exact nomatch hrow
      · rintro ⟨-, anchor, url, hmem, -⟩
        exact nomatch hmem
  | cons link links ih =>
      intro seen
      obtain ⟨anchor, url⟩ := link
      have hsplit : (∃ anchor' url', (anchor', url') ∈ (anchor, url) :: links
            ∧ t.sanitizeSourceUrl (t.strip url') = some kept)
          ↔ t.sanitizeSourceUrl (t.strip url) = some kept
            ∨ ∃ anchor' url', (anchor', url') ∈ links
                ∧ t.sanitizeSourceUrl (t.strip url') = some kept := by
        constructor
        · rintro ⟨anchor', url', hmem, hkept⟩
          rcases List.mem_cons.mp hmem with heq | hmem
          · obtain ⟨rfl, rfl⟩ := Prod.mk.inj heq
            exact .inl hkept
          · exact .inr ⟨anchor', url', hmem, hkept⟩
        · rintro (hkept | ⟨anchor', url', hmem, hkept⟩)
          · exact ⟨anchor, url, List.mem_cons_self, hkept⟩
          · exact ⟨anchor', url', List.mem_cons_of_mem _ hmem, hkept⟩
      rw [hsplit, linkSources]
      cases hurl : t.sanitizeSourceUrl (t.strip url) with
      | none =>
          dsimp only
          rw [ih seen]
          simp
      | some here =>
          dsimp only
          split_ifs with hseen
          · rw [ih seen]
            refine and_congr_right fun hnot => ?_
            refine (or_iff_right ?_).symm
            intro heq
            exact hnot (Option.some.inj heq ▸ hseen)
          · rw [List.exists_mem_cons_iff, ih, List.mem_cons, not_or, Option.some.injEq]
            by_cases hhere : here = kept
            · subst hhere
              exact iff_of_true (.inl rfl) ⟨hseen, .inl rfl⟩
            · rw [or_iff_right hhere, or_iff_right hhere]
              exact and_congr_left fun _ => and_iff_right (Ne.symm hhere)

end Quorum
