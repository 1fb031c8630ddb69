import Mathlib.Data.List.Basic
import Mathlib.Tactic

/-! Strings of code points, lone surrogates among them, and the values that `json.loads` makes of
them. -/

namespace Quorum

/-- A code point of a string: a character or a lone surrogate. -/
abbrev CodePoint := Char ⊕ Fin 2048

def ofText (text : List Char) : List CodePoint := text.map Sum.inl

/-- The characters of a string that has no surrogate. -/
def characters : List CodePoint → Option (List Char)
  | [] => some []
  | .inl ch :: points => (characters points).map (ch :: ·)
  | .inr _ :: _ => none

theorem characters_eq_some_iff {points : List CodePoint} {text : List Char} :
    characters points = some text ↔ points = ofText text := by
  induction points generalizing text with
  | nil =>
      rw [characters, Option.some_inj, List.nil_eq, List.nil_eq, ofText, List.map_eq_nil_iff]
  | cons point points ih =>
      cases point with
      | inl ch =>
          rw [characters, Option.map_eq_some_iff]
          constructor
          · rintro ⟨rest, hrest, rfl⟩
            rw [ih.mp hrest, ofText, ofText, List.map_cons]
          · intro h
            cases text with
            | nil => exact nomatch h
            | cons other text =>
                obtain ⟨hch, hrest⟩ := List.cons.inj h
                exact ⟨text, ih.mpr hrest, by rw [Sum.inl.inj hch]⟩
      | inr surrogate =>
          refine iff_of_false nofun fun h => ?_
          cases text with
          | nil => exact nomatch h
          | cons => exact nomatch h

/-- A value that `json.loads` returns. A float is given by its `str`, `nan` and `inf` among them. -/
inductive JsonValue where
  | null
  | bool (value : Bool)
  | int (value : ℤ)
  | float (text : List Char)
  | str (value : List CodePoint)
  | arr (items : List JsonValue)
  | obj (fields : List (List CodePoint × JsonValue))

/-- The value, when it is a string. -/
def JsonValue.str? : JsonValue → Option (List CodePoint)
  | .str value => some value
  | _ => none

/-- The fields, when it is a mapping. -/
def JsonValue.obj? : JsonValue → Option (List (List CodePoint × JsonValue))
  | .obj fields => some fields
  | _ => none

/-- `mapping.get(key)`, with `None` for a key that is absent. -/
def fieldOf (fields : List (List CodePoint × JsonValue)) (key : String) : JsonValue :=
  (fields.lookup (ofText key.toList)).getD .null

end Quorum
