import Quorum.CostComponents
import Quorum.FenceLetters
import Mathlib.Data.List.DropRight

/-! Length discipline of the synthesis (`synthesis_length`): the soft cap of a section and the cut
of the Recommendation, which protects the decision-support caveat. -/

namespace Quorum

/-- What the string methods say of characters, of whatever version of Unicode. -/
structure TextTables where
  lower : Text → Text
  isspace : Char → Bool
  invisible : Char → Bool

def recommendationMaxChars : Nat := 2000

def caveatMarker : Text := "decision support only".toList

def fullCaveat : Text :=
  "This summary is decision support only and is not medical, ".toList
    ++ "legal, financial, safety, or regulated professional advice.".toList

def ellipsis : Text := ['…']

/-- A sentence end followed by a space. -/
def sentenceBoundary : List Text := [". ".toList, "! ".toList, "? ".toList]

namespace TextTables

variable (p : TextTables)

def lstrip (text : Text) : Text :=
  text.dropWhile p.isspace

def rstrip (text : Text) : Text :=
  text.rdropWhile p.isspace

def strip (text : Text) : Text :=
  p.rstrip (p.lstrip text)

/-- At least one character a user would actually see. -/
def isVisible (text : Text) : Bool :=
  !text.all fun ch => p.isspace ch || p.invisible ch

def truncateSection (maxChars : Nat) (text : Text) : Text :=
  if text.length ≤ maxChars then text
  else if maxChars ≤ 1 then ellipsis
  else
    let body := text.take (maxChars - 1)
    match (finditer sentenceBoundary body).getLast? with
    | some (_, lastBoundary) => p.rstrip (body.take lastBoundary) ++ ellipsis
    | none => p.rstrip body ++ ellipsis

/-- Where the caveat begins, by its place in the lower-cased text. -/
def caveatIndex (text : Text) : Option Nat :=
  find caveatMarker (p.lower text)

def appendIfMissing (text : Text) : Text :=
  if (p.caveatIndex text).isSome then text
  else if p.rstrip text = [] then fullCaveat
  else p.rstrip text ++ ' ' :: fullCaveat

/-- The cut of a text that already has the caveat, from `caveatIndex` on. -/
def truncateWithCaveatPresent (text : Text) (caveatIndex : Nat) : Text :=
  let preCaveat := text.take caveatIndex
  let caveatOnward := text.drop caveatIndex
  if text.length ≤ recommendationMaxChars then text
  else if recommendationMaxChars ≤ caveatOnward.length + 4 then
    -- the whole rest of the text is served here, not the caveat alone
    p.rstrip caveatOnward
  else
    let bodyTruncated :=
      p.rstrip (p.truncateSection (recommendationMaxChars - caveatOnward.length - 4) preCaveat)
    if ellipsis.isSuffixOf bodyTruncated then
      bodyTruncated ++ "  ".toList ++ p.lstrip caveatOnward
    else bodyTruncated ++ " ".toList ++ ellipsis ++ "  ".toList ++ p.lstrip caveatOnward

def truncateRecommendation (text : Text) : Text :=
  if text = [] then p.appendIfMissing []
  else
    match p.caveatIndex text with
    | some caveatIndex => p.truncateWithCaveatPresent text caveatIndex
    | none =>
        let bodyBudget := recommendationMaxChars - fullCaveat.length - 1
        if bodyBudget = 0 then fullCaveat
        else if text.length ≤ bodyBudget then p.appendIfMissing text
        else p.appendIfMissing (p.truncateSection bodyBudget text)

/-- The tables on ASCII. -/
def asciiTables : TextTables :=
  { lower := fun text => text.map Char.toLower
    isspace := fun ch => ch == ' ' || ch == '\n' || ch == '\t' || ch == '\r'
    invisible := fun _ => false }

theorem fullCaveat_length : fullCaveat.length = 117 := by
  decide +kernel

theorem length_rstrip_le (text : Text) : (p.rstrip text).length ≤ text.length :=
  (List.rdropWhile_prefix p.isspace text).length_le

theorem length_lstrip_le (text : Text) : (p.lstrip text).length ≤ text.length :=
  (List.dropWhile_suffix p.isspace).length_le

theorem lstrip_of_isPrefix {text part : Text} (htext : p.lstrip text = text)
    (hpart : part <+: text) :
    p.lstrip part = part := by
  cases part with
  | nil => rfl
  | cons ch rest =>
      obtain ⟨tail, rfl⟩ := hpart
      rw [lstrip, List.cons_append] at htext
      cases hspace : p.isspace ch with
      | false => exact List.dropWhile_cons_of_neg (by simp [hspace])
      | true =>
          rw [List.dropWhile_cons_of_pos hspace] at htext
          have hshort := (List.dropWhile_suffix p.isspace (l := rest ++ tail)).length_le
          rw [htext, List.length_cons] at hshort
          omega

theorem strip_strip (text : Text) : p.strip (p.strip text) = p.strip text := by
  have hleft : p.lstrip (p.lstrip text) = p.lstrip text := List.dropWhile_idempotent p.isspace _
  have hinner : p.lstrip (p.strip text) = p.strip text :=
    p.lstrip_of_isPrefix hleft (List.rdropWhile_prefix p.isspace _)
  conv_lhs => rw [strip, hinner]
  exact List.rdropWhile_idempotent p.isspace _

theorem length_truncateSection_le (maxChars : Nat) (hmax : 1 ≤ maxChars) (text : Text) :
    (p.truncateSection maxChars text).length ≤ maxChars := by
  have hbody : (text.take (maxChars - 1)).length ≤ maxChars - 1 := List.length_take_le _ _
  rw [truncateSection]
  split_ifs with hshort hone
  · exact hshort
  · exact hmax
  · dsimp only
    split
    · next lastBoundary _ =>
        have hcut := p.length_rstrip_le ((text.take (maxChars - 1)).take lastBoundary)
        have htake := List.length_take_le' lastBoundary (text.take (maxChars - 1))
        rw [List.length_append, ellipsis, List.length_singleton]
        omega
    · have hcut := p.length_rstrip_le (text.take (maxChars - 1))
      rw [List.length_append, ellipsis, List.length_singleton]
      omega

theorem truncateSection_of_length_le {maxChars : Nat} {text : Text} (h : text.length ≤ maxChars) :
    p.truncateSection maxChars text = text := by
  rw [truncateSection, if_pos h]

theorem length_appendIfMissing_le (text : Text) :
    (p.appendIfMissing text).length ≤ text.length + 1 + fullCaveat.length := by
  have hcut := p.length_rstrip_le text
  rw [appendIfMissing]
  split_ifs with hpresent hempty
  · omega
  · omega
  · rw [List.length_append, List.length_cons]
    omega

/-- Either the recommendation respects its cap or it is the whole text from the caveat on. -/
theorem truncateWithCaveatPresent_cases (text : Text) (caveatIndex : Nat) :
    (p.truncateWithCaveatPresent text caveatIndex).length ≤ recommendationMaxChars
        ∧ (p.rstrip (text.drop caveatIndex)).length ≤ recommendationMaxChars
      ∨ p.truncateWithCaveatPresent text caveatIndex = p.rstrip (text.drop caveatIndex) := by
  have honward := p.length_rstrip_le (text.drop caveatIndex)
  have hdrop : (text.drop caveatIndex).length ≤ text.length := by
    rw [List.length_drop]
    exact Nat.sub_le _ _
  rw [truncateWithCaveatPresent]
  dsimp only
  split_ifs with hshort hlong hellipsis
  · exact Or.inl ⟨hshort, by omega⟩
  · exact Or.inr rfl
  · have hbody := p.length_truncateSection_le
      (recommendationMaxChars - (text.drop caveatIndex).length - 4) (by omega)
      (text.take caveatIndex)
    have hcut := p.length_rstrip_le (p.truncateSection
      (recommendationMaxChars - (text.drop caveatIndex).length - 4) (text.take caveatIndex))
    have hleft := p.length_lstrip_le (text.drop caveatIndex)
    have hblank : "  ".toList.length = 2 := rfl
    refine Or.inl ⟨?_, by omega⟩
    rw [List.length_append, List.length_append, hblank]
    omega
  · have hbody := p.length_truncateSection_le
      (recommendationMaxChars - (text.drop caveatIndex).length - 4) (by omega)
      (text.take caveatIndex)
    have hcut := p.length_rstrip_le (p.truncateSection
      (recommendationMaxChars - (text.drop caveatIndex).length - 4) (text.take caveatIndex))
    have hleft := p.length_lstrip_le (text.drop caveatIndex)
    have hblanks : " ".toList.length = 1 ∧ ellipsis.length = 1 ∧ "  ".toList.length = 2 :=
      ⟨rfl, rfl, rfl⟩
    refine Or.inl ⟨?_, by omega⟩
    rw [List.length_append, List.length_append, List.length_append, List.length_append]
    omega

/-- The text from the caveat on, as long as it may become. -/
def CaveatFits (limit : Nat) (text : Text) : Prop :=
  ∀ caveatIndex, p.caveatIndex text = some caveatIndex →
    (p.rstrip (text.drop caveatIndex)).length ≤ limit

/-- The recommendation respects a limit above its cap exactly when the text from the caveat on
does. -/
theorem length_truncateRecommendation_le_iff {limit : Nat} (hlimit : recommendationMaxChars ≤ limit)
    (text : Text) : (p.truncateRecommendation text).length ≤ limit ↔ p.CaveatFits limit text := by
  have hmax : recommendationMaxChars = 2000 := rfl
  rw [truncateRecommendation]
  split_ifs with hempty
  · subst hempty
    have happend := p.length_appendIfMissing_le []
    rw [fullCaveat_length, List.length_nil] at happend
    refine ⟨fun _ caveatIndex _ => ?_, fun _ => by omega⟩
    rw [List.drop_nil]
    exact Nat.zero_le _
  · cases hindex : p.caveatIndex text with
    | some caveatIndex =>
        have hfits : p.CaveatFits limit text
            ↔ (p.rstrip (text.drop caveatIndex)).length ≤ limit := by
          refine ⟨fun h => h caveatIndex hindex, fun h other hother => ?_⟩
          rw [hindex] at hother
          rw [← Option.some.inj hother]
          exact h
        rw [hfits]
        dsimp only
        rcases p.truncateWithCaveatPresent_cases text caveatIndex with ⟨hcut, honward⟩ | hwhole
        · exact ⟨fun _ => by omega, fun _ => by omega⟩
        · rw [hwhole]
    | none =>
        have hfits : p.CaveatFits limit text := by
          intro caveatIndex hsome
          rw [hindex] at hsome
          exact absurd hsome (Option.some_ne_none caveatIndex).symm
        have hbudget : recommendationMaxChars - fullCaveat.length - 1 = 1882 := by
          rw [fullCaveat_length, hmax]
        simp only [hfits, iff_true, hbudget]
        rw [if_neg (by omega)]
        split_ifs with hshort
        · have happend := p.length_appendIfMissing_le text
          rw [fullCaveat_length] at happend
          omega
        · have happend := p.length_appendIfMissing_le (p.truncateSection 1882 text)
          have hbody := p.length_truncateSection_le 1882 (by omega) text
          rw [fullCaveat_length] at happend
          omega

end TextTables

end Quorum
