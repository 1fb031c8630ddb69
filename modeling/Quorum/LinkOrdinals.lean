import Quorum.LinkReading

/-! The bracketed ordinals that the markers count, against those that stand outside every link. -/

namespace Quorum

open Bracket

namespace MarkerTables

variable {m : MarkerTables} {text : Text}

/-! ### What an ordinal is spelled with -/

theorem mem_strip {ch : Char} (hmem : ch ∈ text) (hspace : m.isspace ch = false) :
    ch ∈ m.strip text := by
  obtain ⟨before, after, rfl⟩ := List.append_of_mem hmem
  have hleft : ch ∈ (before ++ ch :: after).dropWhile m.isspace := by
    rw [List.dropWhile_append]
    split_ifs
    · rw [List.dropWhile_cons_of_neg (by rw [hspace]; exact Bool.false_ne_true)]
      exact List.mem_cons_self
    · exact List.mem_append_right _ List.mem_cons_self
  obtain ⟨front, back, hsplit⟩ := List.append_of_mem hleft
  rw [strip, hsplit, List.rdropWhile, List.reverse_append, List.reverse_cons, List.append_assoc,
    List.dropWhile_append]
  rw [List.mem_reverse]
  split_ifs
  · rw [List.singleton_append,
      List.dropWhile_cons_of_neg (by rw [hspace]; exact Bool.false_ne_true)]
    exact List.mem_cons_self
  · exact List.mem_append_right _ List.mem_cons_self

theorem mem_of_mem_strip {ch : Char} (h : ch ∈ m.strip text) : ch ∈ text :=
  (List.dropWhile_suffix _).subset ((List.rdropWhile_prefix _ _).subset h)

/-- No bracket stands in an ordinal list. -/
theorem ordinalList_plain {content group : Text} (h : m.ordinalList content = some group) :
    '[' ∉ content ∧ ']' ∉ content := by
  rw [ordinalList] at h
  split_ifs at h with hordinals
  have hplain : ∀ ch ∈ ['[', ']'], ch ∉ content := by
    intro ch hch hmem
    obtain ⟨hspace, hdecimal⟩ := m.brackets ch hch
    have hseparator : isSeparator ch = false := by
      rcases List.mem_pair.mp hch with rfl | rfl <;> rfl
    obtain ⟨part, hpart, hin⟩ := mem_splitOnP_iff.mpr ⟨hmem, hseparator⟩
    have hordinal := List.all_eq_true.mp hordinals part hpart
    rw [isOrdinal, Bool.and_eq_true] at hordinal
    have := List.all_eq_true.mp hordinal.2 ch (mem_strip hin hspace)
    rw [hdecimal] at this
    cases this
  exact ⟨hplain _ (by decide), hplain _ (by decide)⟩

/-- The group of a match names an ordinal. -/
theorem splitOrdinals_ne_nil {content group : Text} (h : m.ordinalList content = some group) :
    m.splitOrdinals group ≠ [] := by
  rw [ordinalList] at h
  split_ifs at h with hordinals
  obtain rfl := Option.some.inj h
  obtain ⟨part, rest, hparts⟩ :=
    List.exists_cons_of_ne_nil (List.splitOnP_ne_nil isSeparator content)
  have hpart : part ∈ content.splitOnP isSeparator := by
    rw [hparts]
    exact List.mem_cons_self
  have hordinal := List.all_eq_true.mp hordinals part hpart
  rw [isOrdinal, Bool.and_eq_true, Bool.and_eq_true] at hordinal
  have hpos : 0 < (m.strip part).length := of_decide_eq_true hordinal.1.1
  -- its first digit stands in the group, and there in an ordinal
  obtain ⟨digit, tail, hstrip⟩ := List.exists_cons_of_length_pos hpos
  have hdigit : digit ∈ m.strip part := by
    rw [hstrip]
    exact List.mem_cons_self
  have hspace : m.isspace digit = false := by
    have hprefix : m.strip part <+: part.dropWhile m.isspace := List.rdropWhile_prefix _ _
    rw [hstrip] at hprefix
    obtain ⟨after, hafter⟩ := hprefix
    have hhead := List.head?_dropWhile_not m.isspace part
    rw [← hafter, List.cons_append, List.head?_cons] at hhead
    simpa using hhead
  obtain ⟨hmem, hseparator⟩ := mem_splitOnP_iff.mp ⟨part, hpart, mem_of_mem_strip hdigit⟩
  obtain ⟨piece, hpiece, hin⟩ := mem_splitOnP_iff.mpr ⟨mem_strip (m := m) hmem hspace, hseparator⟩
  apply List.ne_nil_of_mem (a := m.strip piece)
  rw [splitOrdinals, List.mem_filter]
  exact ⟨List.mem_map_of_mem hpiece, decide_eq_true (List.ne_nil_of_mem (mem_strip hin hspace))⟩

/-- A match: a bracket, an ordinal list, and the next closing bracket. -/
theorem ordinalAt_eq_some {group : Text} {width : ℕ} :
    m.ordinalAt text = some (group, width)
      ↔ ∃ content after, text = '[' :: (content ++ ']' :: after)
          ∧ m.ordinalList content = some group
        ∧ width = content.length + 1 := by
  unfold ordinalAt
  split
  · next rest =>
      dsimp only
      constructor
      · intro h
        split_ifs at h with hlength
        obtain ⟨found, hfound, hpair⟩ := Option.map_eq_some_iff.mp h
        obtain ⟨rfl, rfl⟩ := Prod.mk.inj hpair
        cases hdrop : rest.dropWhile (· ≠ ']') with
        | nil =>
            have :=
              congrArg List.length (List.takeWhile_append_dropWhile (p := (· ≠ ']')) (l := rest))
            rw [hdrop, List.append_nil] at this
            omega
        | cons ch after =>
            have hhead := List.head?_dropWhile_not (fun ch : Char => decide (ch ≠ ']')) rest
            rw [hdrop, List.head?_cons] at hhead
            obtain rfl : ch = ']' := by simpa using hhead
            refine ⟨rest.takeWhile (· ≠ ']'), after, ?_, hfound, rfl⟩
            rw [← hdrop, List.takeWhile_append_dropWhile]
      · rintro ⟨content, after, hrest, hgroup, rfl⟩
        obtain rfl := (List.cons.inj hrest).2
        have hcontent : (content ++ ']' :: after).takeWhile (· ≠ ']') = content := by
          rw [List.takeWhile_append_of_pos]
          · simp
          · intro ch hch
            exact decide_eq_true fun h => (ordinalList_plain hgroup).2 (h ▸ hch)
        rw [hcontent, if_pos (by simp), hgroup]
        rfl
  · next hopen =>
      constructor
      · exact fun h => nomatch h
      · rintro ⟨content, after, htext, -⟩
        exact absurd htext (hopen _)

/-- The ordinals that a match here counts. -/
def ordinalsAt (m : MarkerTables) (text : Text) : List Text :=
  match m.ordinalAt text with
  | some (group, _) => m.splitOrdinals group
  | none => []

theorem ordinalsAt_ne_nil :
    m.ordinalsAt text ≠ []
      ↔ ∃ content after, text = '[' :: (content ++ ']' :: after)
          ∧ (m.ordinalList content).isSome := by
  cases hmatch : m.ordinalAt text with
  | none =>
      rw [ordinalsAt, hmatch]
      constructor
      · exact fun h => absurd rfl h
      · rintro ⟨content, after, htext, hsome⟩
        obtain ⟨group, hgroup⟩ := Option.isSome_iff_exists.mp hsome
        rw [ordinalAt_eq_some.mpr ⟨content, after, htext, hgroup, rfl⟩] at hmatch
        cases hmatch
  | some found =>
      obtain ⟨group, width⟩ := found
      obtain ⟨content, after, htext, hgroup, -⟩ := ordinalAt_eq_some.mp hmatch
      rw [ordinalsAt, hmatch]
      constructor
      · exact fun _ => ⟨content, after, htext, Option.isSome_of_mem hgroup⟩
      · exact fun _ => splitOrdinals_ne_nil hgroup

theorem ordinalsAt_of_ne {ch : Char} {rest : Text} (h : ch ≠ '[') :
    m.ordinalsAt (ch :: rest) = [] := by
  by_contra hne
  obtain ⟨content, after, htext, -⟩ := ordinalsAt_ne_nil.mp hne
  exact h (List.cons.inj htext).1

/-- No match begins where no bracket stands. -/
theorem flatMap_ordinalsAt_plain {before after : Text} (h : '[' ∉ before) :
    (before ++ after).tails.flatMap m.ordinalsAt = after.tails.flatMap m.ordinalsAt := by
  induction before with
  | nil => rfl
  | cons ch before ih =>
      rw [List.mem_cons, not_or] at h
      obtain ⟨hch, hbefore⟩ := h
      rw [List.cons_append, List.tails_cons, List.flatMap_cons, ordinalsAt_of_ne (Ne.symm hch),
        List.nil_append, ih hbefore]

theorem findOrdinals_drop (skip : ℕ) : ∀ text : Text,
    m.findOrdinals skip text = m.findOrdinals 0 (text.drop skip) := by
  induction skip with
  | zero => exact fun text => rfl
  | succ skip ih =>
      intro text
      cases text with
      | nil => rfl
      | cons ch rest => exact ih rest

/-- Every match is found: one that begins within another would need a second bracket. -/
theorem findOrdinals_eq (m : MarkerTables) (text : Text) :
    (m.findOrdinals 0 text).flatMap m.splitOrdinals = text.tails.flatMap m.ordinalsAt := by
  induction hlength : text.length using Nat.strong_induction_on generalizing text with
  | _ n ih =>
      subst hlength
      cases text with
      | nil => rfl
      | cons ch rest =>
          rw [findOrdinals, List.tails_cons, List.flatMap_cons]
          cases hmatch : m.ordinalAt (ch :: rest) with
          | none =>
              rw [ordinalsAt, hmatch]
              exact ih rest.length (Nat.lt_succ_self _) rest rfl
          | some found =>
              obtain ⟨group, width⟩ := found
              obtain ⟨content, after, htext, hgroup, rfl⟩ := ordinalAt_eq_some.mp hmatch
              obtain ⟨rfl, rfl⟩ := List.cons.inj htext
              have hdrop : (content ++ ']' :: after).drop (content.length + 1) = after := by
                rw [← List.drop_drop, List.drop_left]
                rfl
              have hplain : '[' ∉ content ++ [']'] := by
                rw [List.mem_append, not_or]
                exact ⟨(ordinalList_plain hgroup).1, by decide⟩
              have hrest : content ++ ']' :: after = (content ++ [']']) ++ after := by simp
              have hafter := ih after.length (by simp; omega) after rfl
              dsimp only
              rw [List.flatMap_cons, findOrdinals_drop, hdrop, hafter, ordinalsAt, hmatch, hrest,
                flatMap_ordinalsAt_plain hplain]

/-! ### The ordinals outside the links -/

/-- The characters before the first link. -/
def leadingChars : List (Item Char) → Text
  | .char ch :: rest => ch :: leadingChars rest
  | _ => []

/-- The ordinals of the text that stand outside every link, from left to right. -/
def bareOrdinals (m : MarkerTables) (items : List (Item Char)) : List Text :=
  items.tails.flatMap fun suffix => m.ordinalsAt (leadingChars suffix)

/-- The markers count the ordinals outside the links, each once, and no others. -/
def CountsBareOrdinals (m : MarkerTables) (page : Page Char) (text : Text) : Prop :=
  ∃ urls remainder, m.scanLinks text = some (urls, remainder)
    ∧ (m.findOrdinals 0 remainder).flatMap m.splitOrdinals = m.bareOrdinals (page.items m.signs)

/-- Two brackets with a link between them, where the rest is an ordinal list once a space stands for
each link. -/
def Bridged (m : MarkerTables) (items : List (Item Char)) : Prop :=
  ∃ before between after, items = before ++ .char '[' :: (between ++ .char ']' :: after)
    ∧ (∃ link, .link link ∈ between) ∧ (m.ordinalList (blanked between)).isSome

/-- The leading characters begin what is left of the items, and a link ends them. -/
theorem leadingChars_spec (items : List (Item Char)) :
    ∃ after, items = (leadingChars items).map .char ++ after ∧ (after = [] ∨ ∃ link rest,
      after = .link link :: rest) := by
  induction items with
  | nil => exact ⟨[], rfl, Or.inl rfl⟩
  | cons item rest ih =>
      cases item with
      | link link => exact ⟨_, rfl, Or.inr ⟨link, rest, rfl⟩⟩
      | char ch =>
          obtain ⟨after, hrest, hafter⟩ := ih
          refine ⟨after, ?_, hafter⟩
          rw [leadingChars, List.map_cons, List.cons_append, ← hrest]

theorem leadingChars_append (before : Text) (items : List (Item Char)) :
    leadingChars (before.map .char ++ items) = before ++ leadingChars items := by
  induction before with
  | nil => rfl
  | cons ch before ih => rw [List.map_cons, List.cons_append, leadingChars, ih, List.cons_append]

theorem blanked_chars (before : Text) : blanked (before.map .char) = before := by
  rw [blanked, List.map_map]
  exact List.map_id before

theorem blanked_append (before after : List (Item Char)) :
    blanked (before ++ after) = blanked before ++ blanked after :=
  List.map_append

/-- A match among the leading characters is one in what is left. -/
theorem ordinalsAt_leadingChars (items : List (Item Char)) :
    m.ordinalsAt (leadingChars items) = []
      ∨ m.ordinalsAt (leadingChars items) = m.ordinalsAt (blanked items) := by
  cases hmatch : m.ordinalAt (leadingChars items) with
  | none =>
      rw [ordinalsAt, hmatch]
      exact Or.inl rfl
  | some found =>
      obtain ⟨group, width⟩ := found
      obtain ⟨content, after, hleading, hgroup, hwidth⟩ := ordinalAt_eq_some.mp hmatch
      obtain ⟨others, hitems, -⟩ := leadingChars_spec items
      have hblanked : m.ordinalAt (blanked items) = some (group, width) := by
        apply ordinalAt_eq_some.mpr
        refine ⟨content, after ++ blanked others, ?_, hgroup, hwidth⟩
        rw [hitems, blanked_append, blanked_chars, hleading]
        simp
      rw [ordinalsAt, ordinalsAt, hmatch, hblanked]
      exact Or.inr rfl

theorem leadingChars_of_link {between : List (Item Char)} {link : Text} (h : .link link ∈ between)
    (after : List (Item Char)) : leadingChars (between ++ after) = leadingChars between := by
  induction between with
  | nil => cases h
  | cons item between ih =>
      cases item with
      | link other => rfl
      | char ch =>
          rw [List.cons_append, leadingChars, leadingChars,
            ih ((List.mem_cons.mp h).resolve_left (nomatch ·))]

theorem leadingChars_isPrefix (items : List (Item Char)) :
    leadingChars items <+: blanked items := by
  obtain ⟨after, hitems, -⟩ := leadingChars_spec items
  refine ⟨blanked after, ?_⟩
  conv_rhs => rw [hitems, blanked_append, blanked_chars]

/-- Only a link is left as a space; any other character is left of itself. -/
theorem eq_char_of_blankItem {item : Item Char} {ch : Char} (h : blankItem item = ch)
    (hch : ch ≠ ' ') : item = .char ch := by
  cases item with
  | char other => exact congrArg Item.char h
  | link link => exact absurd h.symm hch

/-- What the removal adds to the matches at one place: the brackets of a bridge. -/
theorem ordinalsAt_ne_iff (items : List (Item Char)) :
    m.ordinalsAt (leadingChars items) ≠ m.ordinalsAt (blanked items)
      ↔ ∃ between after, items = .char '[' :: (between ++ .char ']' :: after)
        ∧ (∃ link, .link link ∈ between) ∧ (m.ordinalList (blanked between)).isSome := by
  constructor
  · intro hne
    have hnil := (ordinalsAt_leadingChars items).resolve_right hne
    rw [hnil] at hne
    obtain ⟨content, rest, hblanked, hsome⟩ := ordinalsAt_ne_nil.mp (Ne.symm hne)
    obtain ⟨opener, others, rfl, hopener, hothers⟩ := List.map_eq_cons_iff.mp hblanked
    obtain ⟨between, tail, rfl, rfl, htail⟩ := List.map_eq_append_iff.mp hothers
    obtain ⟨closer, after, rfl, hcloser, -⟩ := List.map_eq_cons_iff.mp htail
    obtain rfl := eq_char_of_blankItem hopener (by decide)
    obtain rfl := eq_char_of_blankItem hcloser (by decide)
    refine ⟨between, after, rfl, ?_, hsome⟩
    obtain ⟨beyond, hbetween, rfl | ⟨link, more, rfl⟩⟩ := leadingChars_spec between
    · -- without a link between them the brackets stand in the text already
      exfalso
      rw [List.append_nil] at hbetween
      apply ordinalsAt_ne_nil.mpr _ hnil
      refine ⟨leadingChars between, leadingChars after, ?_, ?_⟩
      · rw [leadingChars, hbetween, leadingChars_append, ← hbetween]
        rfl
      · rwa [← blanked_chars (leadingChars between), ← hbetween]
    · refine ⟨link, ?_⟩
      rw [hbetween]
      exact List.mem_append_right _ List.mem_cons_self
  · rintro ⟨between, after, rfl, ⟨link, hlink⟩, hsome⟩ heq
    have hleft : m.ordinalsAt (blanked (.char '[' :: (between ++ .char ']' :: after))) ≠ [] := by
      apply ordinalsAt_ne_nil.mpr
      refine ⟨blanked between, blanked after, ?_, hsome⟩
      simp [blanked, blankItem]
    rw [← heq] at hleft
    obtain ⟨content, rest, hleading, -⟩ := ordinalsAt_ne_nil.mp hleft
    obtain ⟨group, hgroup⟩ := Option.isSome_iff_exists.mp hsome
    have hcloser : ']' ∈ leadingChars between := by
      rw [leadingChars, leadingChars_of_link hlink] at hleading
      rw [(List.cons.inj hleading).2]
      exact List.mem_append_right _ List.mem_cons_self
    exact (ordinalList_plain hgroup).2 ((leadingChars_isPrefix between).subset hcloser)

theorem flatMap_eq_iff {α β : Type*} {f g : α → List β} {l : List α}
    (h : ∀ a ∈ l, f a = [] ∨ f a = g a) : l.flatMap f = l.flatMap g ↔ ∀ a ∈ l, f a = g a := by
  induction l with
  | nil => simp
  | cons a l ih =>
      have hlater := ih fun b hb => h b (List.mem_cons_of_mem _ hb)
      rw [List.forall_mem_cons, List.flatMap_cons, List.flatMap_cons, ← hlater]
      constructor
      · intro heq
        rcases h a List.mem_cons_self with hnil | hsame
        · -- the left side cannot make up elsewhere for what it lacks here
          have hle : (l.flatMap f).length ≤ (l.flatMap g).length := by
            rw [List.length_flatMap, List.length_flatMap]
            apply List.sum_le_sum
            intro b hb
            rcases h b (List.mem_cons_of_mem _ hb) with hb | hb <;> rw [hb]
            exact Nat.zero_le _
          have hlength := congrArg List.length heq
          rw [hnil, List.nil_append, List.length_append] at hlength
          have hg : g a = [] := List.length_eq_zero_iff.mp (by omega)
          rw [hnil, hg] at heq ⊢
          exact ⟨rfl, heq⟩
        · rw [hsame] at heq
          exact ⟨hsame, List.append_cancel_left heq⟩
      · rintro ⟨hsame, heq⟩
        rw [hsame, heq]

theorem tails_blanked (items : List (Item Char)) :
    (blanked items).tails = items.tails.map blanked := by
  induction items with
  | nil => rfl
  | cons item items ih =>
      rw [List.tails_cons, List.map_cons, ← ih]
      exact List.tails_cons _ _

theorem findOrdinals_blanked (m : MarkerTables) (items : List (Item Char)) :
    (m.findOrdinals 0 (blanked items)).flatMap m.splitOrdinals
      = items.tails.flatMap fun suffix => m.ordinalsAt (blanked suffix) := by
  rw [findOrdinals_eq, tails_blanked, List.flatMap_map]

theorem bareOrdinals_eq_iff (m : MarkerTables) (items : List (Item Char)) :
    (m.findOrdinals 0 (blanked items)).flatMap m.splitOrdinals = m.bareOrdinals items
      ↔ ¬ m.Bridged items := by
  rw [findOrdinals_blanked, eq_comm, bareOrdinals,
    flatMap_eq_iff fun suffix _ => ordinalsAt_leadingChars suffix]
  constructor
  · rintro heq ⟨before, between, after, rfl, hbridge⟩
    refine ordinalsAt_ne_iff _ |>.mpr ⟨between, after, rfl, hbridge⟩ (heq _ ?_)
    exact (List.mem_tails _ _).mpr (List.suffix_append _ _)
  · intro hbridged suffix hsuffix
    by_contra hne
    obtain ⟨between, after, rfl, hbridge⟩ := (ordinalsAt_ne_iff suffix).mp hne
    obtain ⟨before, hitems⟩ := (List.mem_tails _ _).mp hsuffix
    exact hbridged ⟨before, between, after, hitems.symm, hbridge⟩

/-- The markers of an answer without bridges: the URLs of its links, then the ordinals outside
them. -/
theorem extractCitationMarkers_eq {proseOnly : Text → Text} {page : Page Char} (htext : text ≠ [])
    (hread : m.Reads page (proseOnly text)) (h : ¬ m.Bridged (page.items m.signs)) :
    ∃ urls, m.extractCitationMarkers proseOnly text
      = some (urls ++ m.bareOrdinals (page.items m.signs)) := by
  obtain ⟨urls, hscan, -⟩ := scanLinks_eq hread
  refine ⟨urls, ?_⟩
  rw [extractCitationMarkers, if_neg htext, hscan, Option.map_some]
  dsimp only
  rw [(bareOrdinals_eq_iff m _).mpr h]

/-- The scan ends, and the ordinals outside the links are counted exactly when no two brackets stand
about a link as about an ordinal list. -/
theorem countsBareOrdinals_iff (m : MarkerTables) (text : Text) :
    (∃ urls remainder, m.scanLinks text = some (urls, remainder))
      ∧ (∃ page, m.Reads page text)
      ∧ ∀ page, m.Reads page text →
        (m.CountsBareOrdinals page text ↔ ¬ m.Bridged (page.items m.signs)) := by
  refine ⟨m.exists_scanLinks text, m.exists_reads text, fun page hread => ?_⟩
  obtain ⟨urls, hscan, -⟩ := scanLinks_eq hread
  rw [← bareOrdinals_eq_iff]
  constructor
  · rintro ⟨found, remainder, hfound, hordinals⟩
    rw [hscan] at hfound
    obtain ⟨-, rfl⟩ := Prod.mk.inj (Option.some.inj hfound)
    exact hordinals
  · exact fun hordinals => ⟨urls, _, hscan, hordinals⟩

/-- The tables on ASCII. -/
def asciiMarkerTables : MarkerTables :=
  { isspace := Char.isWhitespace
    isDecimal := Char.isDigit
    blank := by decide
    brackets := by
      rw [List.forall_mem_cons, List.forall_mem_singleton]
      decide }

/-- `x [[1](u)] [2]` as it is read. -/
def nestedPage : Page Char :=
  .done (.char 'x' (.char ' ' (.group (.link (.char '1' .nil) "(u)".toList .nil)
    (.char ' ' (.group (.char '2' .nil) .nil)))))

theorem nestedPage_countsBareOrdinals :
    asciiMarkerTables.CountsBareOrdinals nestedPage "x [[1](u)] [2]".toList
      ∧ ¬ asciiMarkerTables.Bridged (nestedPage.items asciiMarkerTables.signs) := by
  have hreads : asciiMarkerTables.Reads nestedPage "x [[1](u)] [2]".toList := by decide +kernel
  have hcounts : asciiMarkerTables.CountsBareOrdinals nestedPage "x [[1](u)] [2]".toList :=
    ⟨[], "x [ ] [2]".toList, by decide +kernel, by decide +kernel⟩
  exact ⟨hcounts, ((countsBareOrdinals_iff _ _).2.2 nestedPage hreads).mp hcounts⟩

/-- `[1 [a](https://b.c)]` as it is read. -/
def bridgedPage : Page Char :=
  .done (.group (.char '1' (.char ' ' (.link (.char 'a' .nil) "(https://b.c)".toList .nil))) .nil)

/-- The text has no ordinal, and the space that stands for its link makes one. -/
theorem bridgedPage_manufactures :
    asciiMarkerTables.Reads bridgedPage "[1 [a](https://b.c)]".toList
      ∧ asciiMarkerTables.extractCitationMarkers id "[1 [a](https://b.c)]".toList
        = some ["https://b.c".toList, "1".toList]
      ∧ asciiMarkerTables.bareOrdinals (bridgedPage.items asciiMarkerTables.signs) = []
      ∧ ¬ asciiMarkerTables.CountsBareOrdinals bridgedPage "[1 [a](https://b.c)]".toList := by
  refine ⟨by decide +kernel, by decide +kernel, by decide +kernel, ?_⟩
  rintro ⟨urls, remainder, hscan, hordinals⟩
  have hremainder : asciiMarkerTables.scanLinks "[1 [a](https://b.c)]".toList
      = some (["https://b.c".toList], "[1  ]".toList) := by decide +kernel
  rw [hremainder] at hscan
  obtain ⟨-, rfl⟩ := Prod.mk.inj (Option.some.inj hscan)
  revert hordinals
  decide +kernel

end MarkerTables

end Quorum
