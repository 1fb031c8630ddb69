import Quorum.SynthesisLength

/-! Whether the decision-support caveat survives the cut of the Recommendation. The caveat is found
in `text.lower()` and cut out of `text`; `'İ'` takes two characters in lower case, so the place
found may lie past the caveat. -/

namespace Quorum

/-- The data on characters that `str.lower` and the tests of whitespace read. -/
structure LetterTables where
  lowercase : Char → Char
  cased : Char → Bool
  caseIgnorable : Char → Bool
  isspace : Char → Bool
  invisible : Char → Bool

namespace LetterTables

variable (u : LetterTables)

/-- The lower case of one character. Only `'İ'` has more than one there. -/
def lowerLetter (ch : Char) : Text :=
  if ch = 'İ' then ['i', '\u0307'] else [u.lowercase ch]

/-- A sigma that ends a word; the text before it is read backwards. -/
def finalSigma (before after : Text) : Bool :=
  (before.dropWhile u.caseIgnorable).head?.any u.cased
    && !(after.dropWhile u.caseIgnorable).head?.any u.cased

def lowerFrom : Text → Text → Text
  | _, [] => []
  | before, ch :: after =>
      (if ch = 'Σ' then [if u.finalSigma before after then 'ς' else 'σ'] else u.lowerLetter ch)
        ++ lowerFrom (ch :: before) after

def lower (text : Text) : Text :=
  u.lowerFrom [] text

def tables : TextTables :=
  { lower := u.lower, isspace := u.isspace, invisible := u.invisible }

/-- What Unicode says of the characters the caveat and the cut are made of. -/
structure Unicode : Prop where
  ascii : ∀ ch : Char, ch.toNat < 128 → u.lowercase ch = ch.toLower
  blank : ∀ ch, u.isspace ch = true → u.lowercase ch = ch
  solid : ∀ ch : Char, ch.isAlpha = true → u.isspace ch = false
  uncasedEllipsis : u.lowercase '…' = '…'
  solidEllipsis : u.isspace '…' = false

/-- The caveat stands at a place of the text, in whatever case. -/
def CaveatAt (text : Text) (place : Nat) : Prop :=
  u.lower ((text.drop place).take caveatMarker.length) = caveatMarker

/-- The recommendation says the caveat, and only the text from the caveat on takes it over its
cap. -/
def CaveatSurvives (text : Text) : Prop :=
  caveatMarker <:+: u.lower (u.tables.truncateRecommendation text)
    ∧ (u.tables.CaveatFits recommendationMaxChars text →
        (u.tables.truncateRecommendation text).length ≤ recommendationMaxChars)

end LetterTables

/-- How many characters of a longer text `truncate_section` keeps. -/
def sectionCut (maxChars : Nat) (text : Text) : Nat :=
  match (finditer sentenceBoundary (text.take (maxChars - 1))).getLast? with
  | some (_, lastBoundary) => lastBoundary
  | none => maxChars - 1

namespace LetterTables

variable (u : LetterTables)

/-- A text that is not cut before a caveat; or a caveat of it stands where the index found in the
lower-cased text points or later; or one stands in the part of the body that is kept. -/
def KeepsCaveat (text : Text) : Prop :=
  text.length ≤ recommendationMaxChars
    ∨ ∀ caveatIndex, u.tables.caveatIndex text = some caveatIndex →
        ∃ place, u.CaveatAt text place
          ∧ (caveatIndex ≤ place
            ∨ place + caveatMarker.length
              ≤ sectionCut (recommendationMaxChars - (text.drop caveatIndex).length - 4)
                  (text.take caveatIndex))

/-- The lower case with every sigma inside a word. -/
def plain (text : Text) : Text :=
  text.flatMap fun ch => if ch = 'Σ' then ['σ'] else u.lowerLetter ch

def medialSigma (ch : Char) : Char :=
  if ch = 'ς' then 'σ' else ch

theorem plain_append (left right : Text) :
    u.plain (left ++ right) = u.plain left ++ u.plain right :=
  List.flatMap_append

theorem map_medialSigma_lowerFrom (text : Text) : ∀ before,
    (u.lowerFrom before text).map medialSigma = (u.plain text).map medialSigma := by
  induction text with
  | nil => exact fun _ => rfl
  | cons ch after ih =>
      intro before
      have hhere : (if ch = 'Σ' then [if u.finalSigma before after then 'ς' else 'σ']
          else u.lowerLetter ch).map medialSigma
            = (if ch = 'Σ' then ['σ'] else u.lowerLetter ch).map medialSigma := by
        split_ifs
        · rfl
        · rfl
        · rfl
      rw [lowerFrom, plain, List.flatMap_cons, List.map_append, List.map_append, hhere, ih, plain]

theorem map_medialSigma_eq_marker {text : Text} (h : text.map medialSigma = caveatMarker) :
    text = caveatMarker := by
  have hletters : ∀ ch ∈ text, medialSigma ch = ch := by
    intro ch hmem
    have hout : medialSigma ch ∈ caveatMarker := by
      rw [← h]
      exact List.mem_map_of_mem hmem
    rw [medialSigma] at hout ⊢
    split_ifs at hout ⊢ with hfinal
    · exact absurd hout (by decide)
    · rfl
  rw [← h, List.map_congr_left hletters, List.map_id']

theorem marker_map_medialSigma : caveatMarker.map medialSigma = caveatMarker := by
  decide

theorem marker_prefix_map_medialSigma (text : Text) :
    caveatMarker <+: text.map medialSigma ↔ caveatMarker <+: text := by
  constructor
  · rintro ⟨after, heq⟩
    obtain ⟨upto, after', rfl, hupto, rfl⟩ := List.map_eq_append_iff.mp heq.symm
    rw [map_medialSigma_eq_marker hupto]
    exact List.prefix_append caveatMarker after'
  · intro h
    rw [← marker_map_medialSigma]
    exact h.map medialSigma

theorem marker_prefix_lower_iff (text : Text) (index : Nat) :
    caveatMarker <+: (u.lower text).drop index ↔ caveatMarker <+: (u.plain text).drop index := by
  rw [← marker_prefix_map_medialSigma, lower, List.map_drop, map_medialSigma_lowerFrom,
    ← List.map_drop, marker_prefix_map_medialSigma]

/-- Which form a sigma takes does not matter to the caveat. -/
theorem marker_infix_lower_iff (text : Text) :
    caveatMarker <:+: u.lower text ↔ caveatMarker <:+: u.plain text := by
  rw [isInfix_iff_prefix_drop, isInfix_iff_prefix_drop]
  exact exists_congr (u.marker_prefix_lower_iff text)

theorem lower_eq_marker_iff (text : Text) :
    u.lower text = caveatMarker ↔ u.plain text = caveatMarker := by
  have hmaps : (u.lower text).map medialSigma = (u.plain text).map medialSigma :=
    u.map_medialSigma_lowerFrom text []
  constructor
  · intro h
    rw [h, marker_map_medialSigma] at hmaps
    exact map_medialSigma_eq_marker hmaps.symm
  · intro h
    rw [h, marker_map_medialSigma] at hmaps
    exact map_medialSigma_eq_marker hmaps

/-- The lower case of one character is one character, or those of `'İ'`. -/
theorem plain_cons_cases (ch : Char) :
    (∃ letter, ch ≠ 'İ' ∧ ∀ text, u.plain (ch :: text) = letter :: u.plain text)
      ∨ ch = 'İ' ∧ ∀ text, u.plain (ch :: text) = 'i' :: '\u0307' :: u.plain text := by
  by_cases hdotted : ch = 'İ'
  · subst hdotted
    exact Or.inr ⟨rfl, fun _ => rfl⟩
  · left
    by_cases hsigma : ch = 'Σ'
    · subst hsigma
      exact ⟨'σ', hdotted, fun _ => rfl⟩
    · refine ⟨u.lowercase ch, hdotted, fun text => ?_⟩
      rw [plain, List.flatMap_cons, if_neg hsigma, lowerLetter, if_neg hdotted]
      rfl

/-- A word that neither holds the dot of `'İ'` nor ends before it is read off whole characters. -/
theorem prefix_plain_iff (word : Text) (hdot : '\u0307' ∉ word) (hlast : word.getLast? ≠ some 'i') :
    ∀ text, word <+: u.plain text ↔ u.plain (text.take word.length) = word := by
  induction word with
  | nil => exact fun text => ⟨fun _ => rfl, fun _ => List.nil_prefix⟩
  | cons letter rest ih =>
      intro text
      cases text with
      | nil =>
          rw [List.take_nil]
          exact ⟨fun h => absurd (List.prefix_nil.mp h) (List.cons_ne_nil _ _), fun h => by cases h⟩
      | cons ch text =>
          rw [List.length_cons, List.take_succ_cons]
          rcases u.plain_cons_cases ch with ⟨single, -, hsingle⟩ | ⟨-, hpair⟩
          · have hrest : rest.getLast? ≠ some 'i' := by
              cases rest with
              | nil => exact fun h => by cases h
              | cons other more => rwa [List.getLast?_cons_cons] at hlast
            rw [hsingle, hsingle, List.cons_prefix_cons, List.cons.injEq,
              ih (fun hmem => hdot (List.mem_cons_of_mem _ hmem)) hrest, eq_comm]
          · rw [hpair, hpair]
            constructor
            · intro h
              obtain ⟨rfl, hdotted⟩ := List.cons_prefix_cons.mp h
              cases rest with
              | nil => exact absurd rfl hlast
              | cons other more =>
                  obtain ⟨rfl, -⟩ := List.cons_prefix_cons.mp hdotted
                  exact absurd (by simp) hdot
            · intro h
              refine absurd ?_ hdot
              rw [← h]
              simp

theorem marker_prefix_plain_iff (text : Text) (place : Nat) :
    caveatMarker <+: u.plain (text.drop place) ↔ u.CaveatAt text place := by
  rw [CaveatAt, lower_eq_marker_iff]
  exact u.prefix_plain_iff caveatMarker (by decide) (by decide) (text.drop place)

theorem marker_infix_plain_cons (ch : Char) (text : Text) :
    caveatMarker <:+: u.plain (ch :: text)
      ↔ caveatMarker <+: u.plain (ch :: text) ∨ caveatMarker <:+: u.plain text := by
  rcases u.plain_cons_cases ch with ⟨single, -, hsingle⟩ | ⟨-, hpair⟩
  · rw [hsingle, List.infix_cons_iff]
  · -- the caveat does not begin with the dot
    rw [hpair, List.infix_cons_iff, List.infix_cons_iff]
    refine or_congr_right (or_iff_right ?_)
    intro h
    exact absurd (List.cons_prefix_cons.mp h).1 (by decide)

/-- The caveat is in a lower-cased text exactly when it stands at a place of the text. -/
theorem marker_infix_iff (text : Text) :
    caveatMarker <:+: u.lower text ↔ ∃ place, u.CaveatAt text place := by
  rw [marker_infix_lower_iff]
  simp only [← marker_prefix_plain_iff]
  induction text with
  | nil =>
      refine ⟨fun h => ⟨0, ?_⟩, fun ⟨place, h⟩ => ?_⟩
      · exact absurd (List.infix_nil.mp h) (by decide)
      · rw [List.drop_nil] at h
        exact absurd (List.prefix_nil.mp h) (by decide)
  | cons ch text ih =>
      rw [marker_infix_plain_cons, ih]
      constructor
      · rintro (hhere | ⟨place, hlater⟩)
        · exact ⟨0, hhere⟩
        · exact ⟨place + 1, hlater⟩
      · rintro ⟨place, h⟩
        cases place with
        | zero => exact Or.inl h
        | succ place => exact Or.inr ⟨place, h⟩

theorem marker_infix_drop_iff (text : Text) (start : Nat) :
    caveatMarker <:+: u.lower (text.drop start) ↔ ∃ place, u.CaveatAt text place
      ∧ start ≤ place := by
  rw [marker_infix_iff]
  constructor
  · rintro ⟨place, h⟩
    rw [CaveatAt, List.drop_drop] at h
    exact ⟨start + place, h, Nat.le_add_right start place⟩
  · rintro ⟨place, h, hstart⟩
    refine ⟨place - start, ?_⟩
    rw [CaveatAt, List.drop_drop, Nat.add_sub_cancel' hstart]
    exact h

theorem length_plain {text : Text} (hdotted : 'İ' ∉ text) :
    (u.plain text).length = text.length := by
  induction text with
  | nil => rfl
  | cons ch text ih =>
      rcases u.plain_cons_cases ch with ⟨single, -, hsingle⟩ | ⟨rfl, -⟩
      · rw [hsingle, List.length_cons, List.length_cons,
          ih fun hmem => hdotted (List.mem_cons_of_mem _ hmem)]
      · exact absurd List.mem_cons_self hdotted

theorem not_mem_of_plain_eq_marker {text : Text} (h : u.plain text = caveatMarker) :
    'İ' ∉ text := by
  intro hmem
  have hdot : '\u0307' ∈ u.plain text :=
    List.mem_flatMap.mpr ⟨'İ', hmem, List.mem_cons_of_mem _ List.mem_cons_self⟩
  rw [h] at hdot
  exact absurd hdot (by decide)

theorem marker_infix_take_iff (text : Text) (stop : Nat) :
    caveatMarker <:+: u.lower (text.take stop)
      ↔ ∃ place, u.CaveatAt text place ∧ place + caveatMarker.length ≤ stop := by
  have hmarker : caveatMarker.length = 21 := rfl
  rw [marker_infix_iff]
  refine exists_congr fun place => ⟨fun h => ?_, fun ⟨h, hstop⟩ => ?_⟩
  · have hplain := (u.lower_eq_marker_iff _).mp h
    have hlength := u.length_plain (u.not_mem_of_plain_eq_marker hplain)
    rw [hplain, List.length_take, List.length_drop, List.length_take, hmarker] at hlength
    have hroom : place + caveatMarker.length ≤ stop := by omega
    refine ⟨?_, hroom⟩
    rw [CaveatAt, List.drop_take, List.take_take, Nat.min_eq_left (by omega)] at h
    exact h
  · rw [CaveatAt, List.drop_take, List.take_take, Nat.min_eq_left (by omega)]
    exact h

end LetterTables

theorem sectionCut_le (maxChars : Nat) (text : Text) : sectionCut maxChars text ≤ maxChars - 1 := by
  rw [sectionCut]
  split
  · next lastBoundary hlast =>
      have hmem := List.mem_of_getLast? hlast
      have hne : ∀ word ∈ sentenceBoundary, word ≠ [] := by decide
      have hstop := ((finditer_gapped hne (text.take (maxChars - 1))).span_bounds _ hmem).2
      rw [List.length_take] at hstop
      omega
  · exact Nat.le_refl _

theorem TextTables.truncateSection_of_lt (p : TextTables) {maxChars : Nat} {text : Text}
    (h : maxChars < text.length) :
    p.truncateSection maxChars text = p.rstrip (text.take (sectionCut maxChars text))
      ++ ellipsis := by
  have hcut := sectionCut_le maxChars text
  rw [truncateSection, if_neg (by omega)]
  split_ifs with hone
  · have hzero : sectionCut maxChars text = 0 := by omega
    rw [hzero]
    rfl
  · rw [sectionCut] at hcut ⊢
    dsimp only
    revert hcut
    cases (finditer sentenceBoundary (text.take (maxChars - 1))).getLast? with
    | none => exact fun _ => rfl
    | some lastBoundary =>
        intro hcut
        dsimp only at hcut ⊢
        rw [List.take_take, Nat.min_eq_left hcut]

namespace LetterTables

variable (u : LetterTables)

theorem spells_marker_iff (text : Text) :
    Spells [caveatMarker] (u.plain text) ↔ caveatMarker <:+: u.lower text := by
  rw [marker_infix_lower_iff]
  exact ⟨fun ⟨_, hword, h⟩ => List.mem_singleton.mp hword ▸ h,
    fun h => ⟨_, List.mem_singleton_self _, h⟩⟩

theorem caveatIndex_isSome_iff (text : Text) :
    (u.tables.caveatIndex text).isSome ↔ caveatMarker <:+: u.lower text := by
  constructor
  · intro h
    obtain ⟨caveatIndex, hindex⟩ := Option.isSome_iff_exists.mp h
    exact (find_eq_some hindex).1.isInfix.trans (List.drop_suffix _ _).isInfix
  · rintro ⟨before, after, heq⟩
    by_contra hnone
    exact find_eq_none (Option.not_isSome_iff_eq_none.mp hnone) before after heq.symm

theorem le_of_marker_prefix_drop {front back : Text} {index : Nat} (hfront : 'd' ∉ front)
    (h : caveatMarker <+: (front ++ back).drop index) : front.length ≤ index := by
  by_contra hlt
  have hpos : 0 < (front.drop index).length := by
    rw [List.length_drop]
    omega
  obtain ⟨ch, rest, hdrop⟩ := List.exists_cons_of_length_pos hpos
  rw [List.drop_append_of_le_length (by omega), hdrop] at h
  have hd : 'd' = ch := (List.cons_prefix_cons.mp h).1
  refine hfront (List.mem_of_mem_drop (i := index) ?_)
  rw [hdrop, hd]
  exact List.mem_cons_self

theorem length_le_length_plain (text : Text) : text.length ≤ (u.plain text).length := by
  induction text with
  | nil => exact Nat.le_refl 0
  | cons ch text ih =>
      rcases u.plain_cons_cases ch with ⟨single, -, hsingle⟩ | ⟨-, hpair⟩
      · rw [hsingle]
        exact Nat.succ_le_succ ih
      · rw [hpair]
        exact Nat.le_succ_of_le (Nat.succ_le_succ ih)

theorem le_of_caveatAt {body rest : Text} {place : Nat} (hbody : 'd' ∉ u.plain body)
    (h : u.CaveatAt (body ++ rest) place) : body.length ≤ place := by
  by_contra hlt
  rw [← marker_prefix_plain_iff, List.drop_append_of_le_length (by omega), plain_append] at h
  have htail : 'd' ∉ u.plain (body.drop place) := by
    intro hmem
    refine hbody ?_
    rw [← List.take_append_drop place body, plain_append]
    exact List.mem_append_right _ hmem
  have hempty : (u.plain (body.drop place)).length ≤ 0 := le_of_marker_prefix_drop htail h
  have hlength := u.length_le_length_plain (body.drop place)
  rw [List.length_drop] at hlength
  omega

theorem length_of_marker_infix {text : Text} (h : caveatMarker <:+: u.lower text) :
    caveatMarker.length ≤ text.length := by
  obtain ⟨place, hplace⟩ := (u.marker_infix_iff text).mp h
  have hplain := (u.lower_eq_marker_iff _).mp hplace
  have hlength := u.length_plain (u.not_mem_of_plain_eq_marker hplain)
  rw [hplain, List.length_take, List.length_drop] at hlength
  omega

section unicode
variable {u} (huni : u.Unicode)
include huni

/-- Whitespace in lower case has no letter of the alphabet. -/
theorem Unicode.not_mem_plain_blank {blank : Text} (hblank : ∀ ch ∈ blank, u.isspace ch = true)
    {letter : Char} (hletter : letter.isAlpha = true) (hi : letter ≠ 'i') :
    letter ∉ u.plain blank := by
  intro hmem
  obtain ⟨ch, hch, hin⟩ := List.mem_flatMap.mp hmem
  have hspace := hblank ch hch
  have hne : letter ≠ 'σ' ∧ letter ≠ '\u0307' := by
    refine ⟨?_, ?_⟩
    · rintro rfl
      exact absurd hletter (by decide)
    · rintro rfl
      exact absurd hletter (by decide)
  rw [lowerLetter] at hin
  split_ifs at hin with hsigma hdotted
  · exact hne.1 (List.mem_singleton.mp hin)
  · rcases List.mem_cons.mp hin with rfl | hin
    · exact hi rfl
    · exact hne.2 (List.mem_singleton.mp hin)
  · rw [huni.blank ch hspace, List.mem_singleton] at hin
    subst hin
    rw [huni.solid letter hletter] at hspace
    cases hspace

theorem Unicode.spells_plain_rstrip (text : Text) :
    Spells [caveatMarker] (u.plain (u.tables.rstrip text))
      ↔ Spells [caveatMarker] (u.plain text) := by
  have hsplit : u.plain text = u.plain (u.tables.rstrip text)
      ++ u.plain (text.rtakeWhile u.isspace) := by
    rw [← plain_append]
    exact congrArg u.plain List.rdropWhile_append_rtakeWhile.symm
  constructor
  · intro h
    rw [hsplit]
    exact h.mono (List.prefix_append _ _).isInfix
  · intro h
    rw [hsplit] at h
    refine h.of_append_right fun word hword letter hletter => ?_
    rw [List.mem_singleton.mp hword] at hletter
    have hy : letter = 'y' := (Option.some.inj hletter).symm
    rw [hy]
    exact huni.not_mem_plain_blank (fun ch hch => List.mem_rtakeWhile_imp hch)
      (by decide) (by decide)

theorem Unicode.spells_plain_lstrip (text : Text) :
    Spells [caveatMarker] (u.plain (u.tables.lstrip text))
      ↔ Spells [caveatMarker] (u.plain text) := by
  have hsplit : u.plain text = u.plain (text.takeWhile u.isspace)
      ++ u.plain (u.tables.lstrip text) := by
    rw [← plain_append]
    exact congrArg u.plain List.takeWhile_append_dropWhile.symm
  constructor
  · intro h
    rw [hsplit]
    exact h.mono (List.suffix_append _ _).isInfix
  · intro h
    rw [hsplit] at h
    refine h.of_append_left fun word hword letter hletter => ?_
    rw [List.mem_singleton.mp hword] at hletter
    have hd : letter = 'd' := (Option.some.inj hletter).symm
    rw [hd]
    exact huni.not_mem_plain_blank (fun ch hch => List.mem_takeWhile_imp hch)
      (by decide) (by decide)

theorem Unicode.rstrip_ellipsis (text : Text) :
    u.tables.rstrip (text ++ ellipsis) = text ++ ellipsis := by
  refine List.rdropWhile_concat_neg u.isspace text '…' ?_
  rw [huni.solidEllipsis]
  exact Bool.false_ne_true

/-- The ellipsis and the blanks between the body and the rest neither make a caveat nor break
one. -/
theorem Unicode.marker_infix_join (body onward : Text) :
    caveatMarker <:+: u.lower (u.tables.rstrip body ++ ellipsis ++ "  ".toList
      ++ u.tables.lstrip onward)
      ↔ caveatMarker <:+: u.lower body ∨ caveatMarker <:+: u.lower onward := by
  have hgap : u.plain (ellipsis ++ "  ".toList) = ellipsis ++ "  ".toList := by
    have hblank : u.lowercase ' ' = ' ' := huni.ascii ' ' (by decide)
    simp [plain, lowerLetter, ellipsis, huni.uncasedEllipsis, hblank]
  have hwall : Wall [caveatMarker] (ellipsis ++ "  ".toList) :=
    Wall.of_drops (by decide) (heads_notMem_of_all (by decide)) (by decide)
  have hne : ∀ word ∈ [caveatMarker], word ≠ [] := by decide
  rw [← spells_marker_iff, ← spells_marker_iff, ← spells_marker_iff,
    ← huni.spells_plain_rstrip body, ← huni.spells_plain_lstrip onward]
  have hsplit : u.plain (u.tables.rstrip body ++ ellipsis ++ "  ".toList ++ u.tables.lstrip onward)
      = u.plain (u.tables.rstrip body)
        ++ ((ellipsis ++ "  ".toList) ++ u.plain (u.tables.lstrip onward)) := by
    rw [List.append_assoc (u.tables.rstrip body), List.append_assoc, plain_append, plain_append,
      hgap]
  rw [hsplit]
  constructor
  · exact hwall.spells_split hne
  · rintro (h | h)
    · exact h.mono (List.prefix_append _ _).isInfix
    · exact h.mono ((List.suffix_append _ _).trans (List.suffix_append _ _)).isInfix

/-- In a text over the cap the caveat survives past the index found or in the kept part of the
body. -/
theorem Unicode.marker_infix_present_iff {text : Text} {caveatIndex : Nat}
    (hlong : recommendationMaxChars < text.length) :
    caveatMarker <:+: u.lower (u.tables.truncateWithCaveatPresent text caveatIndex)
      ↔ ∃ place, u.CaveatAt text place
          ∧ (caveatIndex ≤ place
            ∨ place + caveatMarker.length
              ≤ sectionCut (recommendationMaxChars - (text.drop caveatIndex).length - 4)
                  (text.take caveatIndex)) := by
  have hsplit : (text.take caveatIndex).length + (text.drop caveatIndex).length = text.length := by
    rw [← List.length_append, List.take_append_drop]
  have hmarker : caveatMarker.length = 21 := rfl
  have hcut := sectionCut_le (recommendationMaxChars - (text.drop caveatIndex).length - 4)
    (text.take caveatIndex)
  simp only [and_or_left, exists_or]
  rw [← marker_infix_drop_iff, TextTables.truncateWithCaveatPresent]
  dsimp only
  rw [if_neg (by omega)]
  split_ifs with hover hellipsis
  · -- no room for a body
    rw [← spells_marker_iff, huni.spells_plain_rstrip, spells_marker_iff, or_iff_left]
    rintro ⟨place, -, hplace⟩
    omega
  · rw [u.tables.truncateSection_of_lt (by omega), huni.rstrip_ellipsis, huni.marker_infix_join,
      List.take_take, Nat.min_eq_left (by rw [List.length_take] at hsplit; omega),
      marker_infix_take_iff, or_comm]
  · rw [u.tables.truncateSection_of_lt (by omega), huni.rstrip_ellipsis] at hellipsis
    exact absurd (List.isSuffixOf_iff_suffix.mpr (List.suffix_append _ _)) hellipsis

/-- A body that fills the cap and is longer in lower case loses the only caveat after it. -/
theorem Unicode.marker_lost {body rest : Text} (hbody : 'd' ∉ u.plain body)
    (hlonger : body.length < (u.plain body).length) (hfills : 1980 ≤ body.length)
    (hrest : caveatMarker <:+: u.lower rest) (honce : ¬ caveatMarker <:+: u.lower (rest.drop 1)) :
    ¬ caveatMarker <:+: u.lower (u.tables.truncateRecommendation (body ++ rest)) := by
  have hmarker : caveatMarker.length = 21 := rfl
  have hmax : recommendationMaxChars = 2000 := rfl
  have hrestLength := u.length_of_marker_infix hrest
  have hlong : recommendationMaxChars < (body ++ rest).length := by
    rw [List.length_append]
    omega
  have hne : body ++ rest ≠ [] := List.ne_nil_of_length_pos (by omega)
  rw [TextTables.truncateRecommendation, if_neg hne]
  cases hindex : u.tables.caveatIndex (body ++ rest) with
  | none =>
      have hpresent : caveatMarker <:+: u.lower (body ++ rest) := by
        rw [marker_infix_lower_iff, plain_append]
        exact ((u.marker_infix_lower_iff rest).mp hrest).trans (List.suffix_append _ _).isInfix
      rw [← caveatIndex_isSome_iff, hindex] at hpresent
      cases hpresent
  | some caveatIndex =>
      dsimp only
      rw [huni.marker_infix_present_iff hlong]
      rintro ⟨place, hplace, hkept⟩
      have hstarts :=
        (u.marker_prefix_lower_iff (body ++ rest) caveatIndex).mp (find_eq_some hindex).1
      rw [plain_append] at hstarts
      have hshift := le_of_marker_prefix_drop hbody hstarts
      have hafter := u.le_of_caveatAt hbody hplace
      rcases hkept with hlater | hkept
      · refine honce ?_
        have hdrop : (body ++ rest).drop (body.length + 1) = rest.drop 1 := by
          rw [← List.drop_drop, List.drop_left]
        rw [← hdrop, marker_infix_drop_iff]
        exact ⟨place, hplace, by omega⟩
      · have hcut := sectionCut_le
          (recommendationMaxChars - ((body ++ rest).drop caveatIndex).length - 4)
          ((body ++ rest).take caveatIndex)
        omega

theorem Unicode.plain_of_ascii {text : Text} (hascii : ∀ ch ∈ text, ch.toNat < 128) :
    u.plain text = text.map Char.toLower := by
  induction text with
  | nil => rfl
  | cons ch text ih =>
      have hch := hascii ch List.mem_cons_self
      have hletter : (if ch = 'Σ' then ['σ'] else u.lowerLetter ch) = [ch.toLower] := by
        rw [lowerLetter, huni.ascii ch hch]
        split_ifs with hsigma hdotted
        · subst hsigma
          exact absurd hch (by decide)
        · subst hdotted
          exact absurd hch (by decide)
        · rfl
      rw [plain, List.flatMap_cons, hletter, List.map_cons,
        ← ih fun other hother => hascii other (List.mem_cons_of_mem _ hother)]
      rfl

theorem Unicode.marker_infix_append (text : Text) :
    caveatMarker <:+: u.lower (u.tables.appendIfMissing text) := by
  have hfull : caveatMarker <:+: u.plain fullCaveat := by
    rw [huni.plain_of_ascii (forall_mem_of_all (by decide +kernel))]
    decide +kernel
  rw [TextTables.appendIfMissing]
  split_ifs with hpresent hempty
  · exact (u.caveatIndex_isSome_iff text).mp hpresent
  · exact (u.marker_infix_lower_iff _).mpr hfull
  · rw [marker_infix_lower_iff, ← List.singleton_append, ← List.append_assoc, plain_append]
    exact hfull.trans (List.suffix_append _ _).isInfix

/-- The caveat survives exactly when the place found does not overshoot it, in a text over the
cap. -/
theorem caveatSurvives_iff (text : Text) :
    u.CaveatSurvives text ↔ u.KeepsCaveat text := by
  have hmax : recommendationMaxChars = 2000 := rfl
  rw [CaveatSurvives, u.tables.length_truncateRecommendation_le_iff (Nat.le_refl _),
    and_iff_left id, KeepsCaveat, TextTables.truncateRecommendation]
  split_ifs with hempty
  · subst hempty
    exact iff_of_true (huni.marker_infix_append []) (Or.inl (Nat.zero_le _))
  cases hindex : u.tables.caveatIndex text with
  | some caveatIndex =>
      have hpresent := (u.caveatIndex_isSome_iff text).mp (Option.isSome_of_eq_some hindex)
      dsimp only
      by_cases hlong : text.length ≤ recommendationMaxChars
      · rw [TextTables.truncateWithCaveatPresent]
        dsimp only
        rw [if_pos hlong]
        exact iff_of_true hpresent (Or.inl hlong)
      · rw [huni.marker_infix_present_iff (Nat.lt_of_not_le hlong), or_iff_right hlong]
        simp only [Option.some.injEq, forall_eq']
  | none =>
      refine iff_of_true ?_ (Or.inr fun caveatIndex hsome => absurd hsome (by simp))
      have hbudget : recommendationMaxChars - fullCaveat.length - 1 = 1882 := by
        rw [TextTables.fullCaveat_length, hmax]
      simp only [hbudget]
      rw [if_neg (by omega)]
      split_ifs
      · exact huni.marker_infix_append text
      · exact huni.marker_infix_append _

end unicode

/-- With no `'İ'` before the place found, the caveat stands there. -/
theorem keepsCaveat_of_not_mem {text : Text}
    (h : ∀ caveatIndex, u.tables.caveatIndex text = some caveatIndex →
      'İ' ∉ text.take caveatIndex) : u.KeepsCaveat text := by
  refine Or.inr fun caveatIndex hindex => ⟨caveatIndex, ?_, Or.inl (Nat.le_refl _)⟩
  have hclear := u.length_plain (h caveatIndex hindex)
  have hstarts := (u.marker_prefix_lower_iff text caveatIndex).mp (find_eq_some hindex).1
  have hsplit : u.plain text = u.plain (text.take caveatIndex)
      ++ u.plain (text.drop caveatIndex) := by
    rw [← plain_append, List.take_append_drop]
  by_cases hle : caveatIndex ≤ text.length
  · rw [hsplit, List.drop_left' (hclear.trans (List.length_take_of_le hle))] at hstarts
    exact (u.marker_prefix_plain_iff text caveatIndex).mp hstarts
  · rw [List.take_of_length_le (by omega)] at hclear
    rw [List.drop_eq_nil_of_le (by omega)] at hstarts
    exact absurd (List.prefix_nil.mp hstarts) (by decide)

/-- Tables that know the letters of the alphabet alone. -/
def asciiLetterTables : LetterTables :=
  { lowercase := Char.toLower
    cased := Char.isAlpha
    caseIgnorable := fun _ => false
    isspace := fun ch => ch == ' ' || ch == '\n' || ch == '\t' || ch == '\r'
    invisible := fun _ => false }

theorem asciiLetterTables_unicode : asciiLetterTables.Unicode := by
  refine ⟨fun _ _ => rfl, ?_, ?_, rfl, rfl⟩
  · intro ch hspace
    simp only [asciiLetterTables, Bool.or_eq_true, beq_iff_eq] at hspace
    rcases hspace with ((rfl | rfl) | rfl) | rfl <;> rfl
  · intro ch halpha
    rw [← Bool.not_eq_true]
    intro hspace
    simp only [asciiLetterTables, Bool.or_eq_true, beq_iff_eq] at hspace
    rcases hspace with ((rfl | rfl) | rfl) | rfl <;> exact absurd halpha (by decide)

theorem caveatSurvives_recapitalised :
    asciiLetterTables.CaveatSurvives "Wait. This is Decision Support Only.".toList :=
  (caveatSurvives_iff asciiLetterTables_unicode _).mpr (Or.inl (by decide +kernel))

/-- A long body that opens with `'İ'`. -/
def dottedBody : Text :=
  'İ' :: List.replicate 1990 'x' ++ " This summary is ".toList

def dottedRest : Text :=
  "decision support only and is not medical, ".toList
    ++ "legal, financial, safety, or regulated professional advice.".toList

theorem caveat_lost : ¬ asciiLetterTables.CaveatSurvives (dottedBody ++ dottedRest) := by
  intro hsurvives
  refine asciiLetterTables_unicode.marker_lost ?_ ?_ ?_ ?_ ?_ hsurvives.1
  all_goals decide +kernel

end LetterTables

end Quorum
