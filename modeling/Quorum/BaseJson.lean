import Mathlib.Data.Rat.Defs

/-! Values that `json.loads` returns. -/

namespace Quorum

inductive Json where
  | null
  | bool (value : Bool)
  | int (value : ℤ)
  | float (value : ℚ)
  | str (value : List Char)
  | arr (items : List Json)
  | obj (fields : List (String × Json))

/-- The text of an object, given that of its fields. -/
def braced (fields : List Char) : List Char := ['{'] ++ fields ++ ['}']

namespace Json

/-- `payload.get(key)` of a mapping; anything else has no such key. -/
def get? : Json → String → Option Json
  | obj fields, key => fields.lookup key
  | _, _ => none

/-- The value, when it is a string. -/
def str? : Json → Option (List Char)
  | str value => some value
  | _ => none

/-- The value itself, when it is a mapping. -/
def mapping? : Json → Option Json
  | obj fields => some (obj fields)
  | _ => none

/-- `payload.get(key)` when it is neither absent nor null. -/
def present? (payload : Json) (key : String) : Option Json :=
  match payload.get? key with
  | none => none
  | some null => none
  | some value => some value

/-- `bool(value)`. -/
def truthy : Json → Bool
  | null => false
  | bool value => value
  | int value => value ≠ 0
  | float value => value ≠ 0
  | str value => value ≠ []
  | arr items => !items.isEmpty
  | obj fields => !fields.isEmpty

/-- `value == 0`; `False` equals it too. -/
def isZero : Json → Bool
  | bool value => !value
  | int value => value = 0
  | float value => value = 0
  | _ => false

/-- The items, when it is a list. -/
def arr? : Json → Option (List Json)
  | arr items => some items
  | _ => none

@[simp] theorem get?_obj (fields : List (String × Json)) (key : String) :
    (obj fields).get? key = fields.lookup key := rfl

@[simp] theorem str?_str (value : List Char) : (str value).str? = some value := rfl

@[simp] theorem arr?_arr (items : List Json) : (arr items).arr? = some items := rfl

/-- A null is no string either. -/
theorem present?_bind_str? (payload : Json) (key : String) :
    (payload.present? key).bind str? = (payload.get? key).bind str? := by
  rw [present?]
  cases payload.get? key with
  | none => rfl
  | some value => cases value <;> rfl

end Json

end Quorum
