import Quorum.BaseDecimal
import Quorum.BaseJsonValue
import Mathlib.Data.List.DropRight

/-! The rows of the model catalog (`catalog_fetcher`): a price is read as a decimal, and a row with
two prices becomes an entry with both of them for a thousand tokens. -/

namespace Quorum

open DecimalArith

/-- What the parser lets out: the `ValueError` of a long integer's text, and `decimal.Overflow`. -/
inductive CatalogError
  | valueError
  | overflow
deriving DecidableEq

/-- `str.isspace`, the value of a decimal digit, and `str.lower`. -/
structure CatalogTables where
  isspace : Char → Bool
  decimalValue : Char → Option ℕ
  lower : List CodePoint → List CodePoint

/-- `ModelCatalogEntry`. -/
structure ModelCatalogEntry where
  modelId : List CodePoint
  name : List CodePoint
  vendor : List CodePoint
  shortName : List CodePoint
  inputPricePer1k : Number
  outputPricePer1k : Number

/-! ### Numbers -/

/-- What a text is as a `Decimal`. -/
inductive DecimalValue
  | finite (value : Number)
  | infinite
  | nan
deriving DecidableEq

/-- The context of a thread. -/
def defaultContext : Context :=
  { prec := 28, emin := -999999, emax := 999999, prec_pos := by decide, emin_le := by decide }

/-- The widest context, in which a text is read exactly. -/
def exactContext : Context :=
  { prec := 999999999999999999, emin := -999999999999999999, emax := 999999999999999999
    prec_pos := by decide, emin_le := by decide }

/-- The exponent part of a number. -/
def readExponent : List Char → Option ℤ
  | [] => some 0
  | ch :: text =>
      if ch = 'e' ∨ ch = 'E' then
        let digits := if text.head? = some '+' ∨ text.head? = some '-' then text.tail else text
        if digits ≠ [] ∧ digits.all Char.isDigit then
          let value : ℤ := Nat.ofDigitChars 10 digits 0
          some (if text.head? = some '-' then -value else value)
        else none
      else none

/-- A number that the widest context holds as it is. -/
def exactNumber (value : Number) : Option Number :=
  let adjusted := if value.coeff = 0 then value.exp else value.exp + digitCount value.coeff - 1
  if digitCount value.coeff ≤ exactContext.prec ∧ exactContext.etiny ≤ value.exp
    ∧ adjusted ≤ exactContext.emax then
    some value
  else none

/-- Digits, a point among them, and an exponent. -/
def readNumber (negative : Bool) (text : List Char) : Option Number :=
  let whole := text.takeWhile Char.isDigit
  let rest := text.dropWhile Char.isDigit
  let behind := if rest.head? = some '.' then rest.tail else []
  let fraction := behind.takeWhile Char.isDigit
  let exponent := if rest.head? = some '.' then behind.dropWhile Char.isDigit else rest
  if whole ++ fraction = [] then none
  else
    (readExponent exponent).bind fun exp =>
      exactNumber { negative, coeff := Nat.ofDigitChars 10 (whole ++ fraction) 0, exp := exp - fraction.length }

/-- A quiet or a signaling NaN with its digits. -/
def isNan (word : List Char) : Bool :=
  ['n', 'a', 'n'].isPrefixOf word && (word.drop 3).all Char.isDigit
    || ['s', 'n', 'a', 'n'].isPrefixOf word && (word.drop 4).all Char.isDigit

/-- `Decimal(text)` of an ASCII text; `none` stands for `InvalidOperation`. -/
def readDecimal (text : List Char) : Option DecimalValue :=
  let negative := text.head? = some '-'
  let body := if text.head? = some '-' ∨ text.head? = some '+' then text.tail else text
  let word := body.map Char.toLower
  if word = "inf".toList ∨ word = "infinity".toList then some .infinite
  else if isNan word then some .nan
  else (readNumber negative body).map .finite

/-- `str` of an integer. -/
def intText (value : ℤ) : Except CatalogError (List Char) :=
  if 4300 < digitCount value.natAbs then .error .valueError else .ok (toString value).toList

/-! ### Rows -/

namespace CatalogTables

variable (p : CatalogTables)

/-- A text without its underscores and with its digits in ASCII. A character that is neither ASCII
nor a digit is in no number. -/
def asciiText : List Char → Option (List Char)
  | [] => some []
  | ch :: text =>
      if ch = '_' then asciiText text
      else if 0 < ch.toNat ∧ ch.toNat < 128 then (asciiText text).map (ch :: ·)
      else (p.decimalValue ch).bind fun value => (asciiText text).map (Nat.digitChar value :: ·)

/-- A price of a text: a finite number that is not negative. -/
def textPrice (text : List Char) : Option Number :=
  if text = [] then none
  else
    match (p.asciiText text).bind readDecimal with
    | some (.finite value) => if value.negative ∧ value.coeff ≠ 0 then none else some value
    | _ => none

/-- `_decimal_from_price`. A lone surrogate is neither whitespace nor a digit. -/
def decimalFromPrice : JsonValue → Except CatalogError (Option Number)
  | .bool true => .ok (p.textPrice "True".toList)
  | .bool false => .ok (p.textPrice "False".toList)
  | .int value => (intText value).map p.textPrice
  | .float text => .ok (p.textPrice text)
  | .str points =>
      match characters points with
      | some text => .ok (p.textPrice ((text.dropWhile p.isspace).rdropWhile p.isspace))
      | none => .ok none
  | _ => .ok none

/-- `_VENDOR_RE`: what stands before the first slash, and the line behind it. -/
def vendorMatch (modelId : List CodePoint) : Option (List CodePoint × List CodePoint) :=
  let vendor := modelId.takeWhile (· ≠ .inl '/')
  let behind := (modelId.drop vendor.length).tail
  let shortName := behind.takeWhile (· ≠ .inl '\n')
  let rest := behind.drop shortName.length
  if vendor ≠ [] ∧ shortName ≠ [] ∧ (rest = [] ∨ rest = [.inl '\n']) then
    some (vendor, shortName) else none

/-- `_vendor_for`. -/
def vendorFor (modelId : List CodePoint) : List CodePoint :=
  match vendorMatch modelId with
  | some (vendor, _) => p.lower vendor
  | none => []

/-- `_short_name_for`. -/
def shortNameFor (modelId : List CodePoint) : List CodePoint :=
  match vendorMatch modelId with
  | some (_, shortName) => shortName
  | none => modelId

/-- A price for a thousand tokens. -/
def perThousand (price : Number) : Except CatalogError Number :=
  match defaultContext.mul price { negative := false, coeff := 1000, exp := 0 } with
  | some value => .ok value
  | none => .error .overflow

/-- The entry of a row with an id, a name and two prices. -/
def entryOf (modelId name : List CodePoint) (inputPrice outputPrice : Number) :
    Except CatalogError ModelCatalogEntry :=
  (perThousand inputPrice).bind fun inputPricePer1k =>
    (perThousand outputPrice).map fun outputPricePer1k =>
      { modelId
        name
        vendor := p.vendorFor modelId
        shortName := shortNameFor modelId
        inputPricePer1k
        outputPricePer1k }

/-- A row's entry of its two prices. -/
def pricedEntry (modelId name : List CodePoint) : Option Number → Option Number →
    Except CatalogError (Option ModelCatalogEntry)
  | some inputPrice, some outputPrice => (p.entryOf modelId name inputPrice outputPrice).map some
  | _, _ => .ok none

/-- `_parse_catalog_row`. -/
def parseCatalogRow (row : JsonValue) : Except CatalogError (Option ModelCatalogEntry) :=
  match row.obj? with
  | none => .ok none
  | some fields =>
      match (fieldOf fields "id").str?, (fieldOf fields "name").str?,
        (fieldOf fields "pricing").obj? with
      | some modelId, some name, some pricing =>
          (p.decimalFromPrice (fieldOf pricing "prompt")).bind fun inputPrice =>
            (p.decimalFromPrice (fieldOf pricing "completion")).bind fun outputPrice =>
              p.pricedEntry modelId name inputPrice outputPrice
      | _, _, _ => .ok none

/-- The entries of the rows, until one of them raises. -/
def parseRows : List JsonValue → Except CatalogError (List ModelCatalogEntry)
  | [] => .ok []
  | row :: rows =>
      (p.parseCatalogRow row).bind fun entry => (parseRows rows).map fun entries =>
        entry.toList ++ entries

/-- The rows of a response. -/
def responseRows (payload : List (List CodePoint × JsonValue)) : List JsonValue :=
  match fieldOf payload "data" with
  | .arr rows => rows
  | _ => []

/-- `_parse_catalog_response`. -/
def parseCatalogResponse (payload : List (List CodePoint × JsonValue)) :
    Except CatalogError (List ModelCatalogEntry) :=
  p.parseRows (responseRows payload)

/-! ### What raises -/

/-- A price that overflows for a thousand tokens. -/
def PriceTooLarge (price : Number) : Prop := defaultContext.TooLarge (price.abs * 1000)

/-- An integer whose text is too long for `str`. -/
def LongInteger (value : JsonValue) : Prop :=
  ∃ number, value = .int number ∧ 4300 < digitCount number.natAbs

/-- Prices that raise: of a long integer, or of a price too large beside another price. -/
def PricesRaise (pricing : List (List CodePoint × JsonValue)) : Prop :=
  LongInteger (fieldOf pricing "prompt") ∨ LongInteger (fieldOf pricing "completion")
    ∨ ∃ inputPrice outputPrice, p.decimalFromPrice (fieldOf pricing "prompt")
        = .ok (some inputPrice)
      ∧ p.decimalFromPrice (fieldOf pricing "completion") = .ok (some outputPrice)
      ∧ (PriceTooLarge inputPrice ∨ PriceTooLarge outputPrice)

/-- A row that has an id, a name and a mapping of prices that raise. -/
def RowRaises (row : JsonValue) : Prop :=
  ∃ fields modelId name pricing, row.obj? = some fields ∧ (fieldOf fields "id").str? = some modelId
    ∧ (fieldOf fields "name").str? = some name ∧ (fieldOf fields "pricing").obj? = some pricing
    ∧ p.PricesRaise pricing

section
variable {p}

theorem decimalFromPrice_error_iff {value : JsonValue} :
    (∃ error, p.decimalFromPrice value = .error error) ↔ LongInteger value := by
  cases value with
  | int number =>
      rw [decimalFromPrice, intText]
      split_ifs with hlong
      · exact iff_of_true ⟨_, rfl⟩ ⟨number, rfl, hlong⟩
      · refine iff_of_false (fun ⟨_, h⟩ => nomatch h) ?_
        rintro ⟨_, heq, hother⟩
        cases heq
        exact hlong hother
  | bool value =>
      cases value <;> exact iff_of_false (fun ⟨_, h⟩ => nomatch h) fun ⟨_, h, _⟩ => nomatch h
  | str points =>
      refine iff_of_false (fun ⟨_, h⟩ => ?_) fun ⟨_, h, _⟩ => nomatch h
      rw [decimalFromPrice] at h
      split at h <;> exact nomatch h
  | null | float | arr | obj =>
      exact iff_of_false (fun ⟨_, h⟩ => nomatch h) fun ⟨_, h, _⟩ => nomatch h

theorem perThousand_cases (price : Number) :
    (PriceTooLarge price ∧ perThousand price = .error .overflow)
      ∨ (¬ PriceTooLarge price ∧ ∃ value, perThousand price = .ok value) := by
  have hthousand : Number.abs { negative := false, coeff := 1000, exp := 0 } = 1000 := by
    rw [Number.abs, zpow_zero, mul_one]
    norm_num
  have hnone := mul_eq_none_iff defaultContext price { negative := false, coeff := 1000, exp := 0 }
  rw [hthousand] at hnone
  rw [perThousand]
  cases hmul : defaultContext.mul price { negative := false, coeff := 1000, exp := 0 } with
  | none => exact Or.inl ⟨hnone.mp hmul, rfl⟩
  | some value =>
      refine Or.inr ⟨fun hlarge => ?_, value, rfl⟩
      rw [hnone.mpr hlarge] at hmul
      cases hmul

theorem entryOf_ok_iff {modelId name : List CodePoint} {inputPrice outputPrice : Number} :
    (∃ entry, p.entryOf modelId name inputPrice outputPrice = .ok entry)
      ↔ ¬ (PriceTooLarge inputPrice ∨ PriceTooLarge outputPrice) := by
  rw [entryOf]
  rcases perThousand_cases inputPrice with ⟨hlarge, hinput⟩ | ⟨hinputFits, inputPricePer1k, hinput⟩
  · rw [hinput]
    exact iff_of_false (fun ⟨_, h⟩ => nomatch h) fun h => h (Or.inl hlarge)
  · rcases perThousand_cases outputPrice with ⟨hlarge, houtput⟩ |
      ⟨houtputFits, outputPricePer1k, houtput⟩
    · rw [hinput, houtput]
      exact iff_of_false (fun ⟨_, h⟩ => nomatch h) fun h => h (Or.inr hlarge)
    · rw [hinput, houtput]
      exact iff_of_true ⟨_, rfl⟩ fun h => h.elim hinputFits houtputFits

/-- The prices of a row give it an entry or none, unless they raise. -/
theorem pricedEntry_ok_iff {modelId name : List CodePoint}
    (pricing : List (List CodePoint × JsonValue)) :
    (∃ entry, ((p.decimalFromPrice (fieldOf pricing "prompt")).bind fun inputPrice =>
        (p.decimalFromPrice (fieldOf pricing "completion")).bind fun outputPrice =>
          p.pricedEntry modelId name inputPrice outputPrice) = .ok entry)
      ↔ ¬ p.PricesRaise pricing := by
  have hinputError := @decimalFromPrice_error_iff p (fieldOf pricing "prompt")
  have houtputError := @decimalFromPrice_error_iff p (fieldOf pricing "completion")
  rw [PricesRaise, ← hinputError, ← houtputError]
  cases hinput : p.decimalFromPrice (fieldOf pricing "prompt") with
  | error error => exact iff_of_false (fun ⟨_, h⟩ => nomatch h) fun h => h (Or.inl ⟨error, rfl⟩)
  | ok inputPrice =>
      cases houtput : p.decimalFromPrice (fieldOf pricing "completion") with
      | error error =>
          exact iff_of_false (fun ⟨_, h⟩ => nomatch h) fun h => h (Or.inr (Or.inl ⟨error, rfl⟩))
      | ok outputPrice =>
          have hread : ∀ {price : Option Number}, ¬ ∃ error,
              Except.ok price = (.error error : Except CatalogError _) :=
            fun ⟨_, h⟩ => nomatch h
          rw [or_iff_right hread, or_iff_right hread]
          cases inputPrice with
          | none => exact iff_of_true ⟨none, rfl⟩ fun ⟨_, _, h, _⟩ => nomatch Except.ok.inj h
          | some inputPrice =>
              cases outputPrice with
              | none => exact iff_of_true ⟨none, rfl⟩ fun ⟨_, _, _, h, _⟩ => nomatch Except.ok.inj h
              | some outputPrice =>
                  have hentry := @entryOf_ok_iff p modelId name inputPrice outputPrice
                  constructor
                  · rintro ⟨entry, h⟩ ⟨input, output, hin, hout, hlarge⟩
                    obtain rfl := Option.some.inj (Except.ok.inj hin)
                    obtain rfl := Option.some.inj (Except.ok.inj hout)
                    refine hentry.mp ?_ hlarge
                    cases hvalue : p.entryOf modelId name inputPrice outputPrice with
                    | ok value => exact ⟨value, rfl⟩
                    | error error =>
                        have hmap : (p.entryOf modelId name inputPrice outputPrice).map some
                            = .ok entry := h
                        rw [hvalue] at hmap
                        exact nomatch hmap
                  · intro h
                    obtain ⟨value, hvalue⟩ := hentry.mpr fun hlarge => h ⟨_, _, rfl, rfl, hlarge⟩
                    refine ⟨some value, ?_⟩
                    change (p.entryOf modelId name inputPrice outputPrice).map some
                      = .ok (some value)
                    rw [hvalue]
                    rfl

/-- A row is parsed to an entry or to none, unless it raises. -/
theorem parseCatalogRow_ok_iff (row : JsonValue) : (∃ entry, p.parseCatalogRow row = .ok entry)
    ↔ ¬ p.RowRaises row := by
  rw [parseCatalogRow]
  cases hobj : row.obj? with
  | none =>
      refine iff_of_true ⟨none, rfl⟩ fun h => ?_
      obtain ⟨_, _, _, _, hfields, -⟩ := h
      rw [hobj] at hfields
      exact nomatch hfields
  | some fields =>
      dsimp only
      cases hid : (fieldOf fields "id").str? with
      | none =>
          refine iff_of_true ⟨none, rfl⟩ fun h => ?_
          obtain ⟨_, _, _, _, hfields, hother, -⟩ := h
          obtain rfl := Option.some.inj (hobj.symm.trans hfields)
          rw [hid] at hother
          exact nomatch hother
      | some modelId =>
          cases hname : (fieldOf fields "name").str? with
          | none =>
              refine iff_of_true ⟨none, rfl⟩ fun h => ?_
              obtain ⟨_, _, _, _, hfields, -, hother, -⟩ := h
              obtain rfl := Option.some.inj (hobj.symm.trans hfields)
              rw [hname] at hother
              exact nomatch hother
          | some name =>
              cases hpricing : (fieldOf fields "pricing").obj? with
              | none =>
                  refine iff_of_true ⟨none, rfl⟩ fun h => ?_
                  obtain ⟨_, _, _, _, hfields, -, -, hother, -⟩ := h
                  obtain rfl := Option.some.inj (hobj.symm.trans hfields)
                  rw [hpricing] at hother
                  exact nomatch hother
              | some pricing =>
                  dsimp only
                  rw [pricedEntry_ok_iff pricing, not_iff_not]
                  constructor
                  · exact fun h => ⟨fields, modelId, name, pricing, hobj, hid, hname, hpricing, h⟩
                  · rintro ⟨_, _, _, _, hfields, -, -, hother, h⟩
                    obtain rfl := Option.some.inj (hobj.symm.trans hfields)
                    rw [hpricing] at hother
                    exact Option.some.inj hother ▸ h

end

/-- The entry of a row that is parsed on its own. -/
def ownEntry (row : JsonValue) : Option ModelCatalogEntry :=
  match p.parseCatalogRow row with
  | .ok entry => entry
  | .error _ => none

theorem parseRows_ok_iff (rows : List JsonValue) :
    p.parseRows rows = .ok (rows.filterMap p.ownEntry)
    ↔ ∀ row ∈ rows, ∃ entry, p.parseCatalogRow row = .ok entry := by
  induction rows with
  | nil => exact iff_of_true rfl fun _ h => absurd h List.not_mem_nil
  | cons row rows ih =>
      rw [List.forall_mem_cons, ← ih, parseRows, List.filterMap_cons, ownEntry]
      cases hrow : p.parseCatalogRow row with
      | error error => exact iff_of_false nofun fun h => nomatch h.1
      | ok entry =>
          rw [and_iff_right ⟨entry, rfl⟩]
          cases hrows : p.parseRows rows with
          | error error => exact iff_of_false nofun nofun
          | ok entries =>
              cases entry with
              | none => exact Iff.rfl
              | some entry =>
                  change (Except.ok (entry :: entries) : Except CatalogError _)
                    = .ok (entry :: rows.filterMap p.ownEntry)
                    ↔ _
                  rw [Except.ok.injEq, Except.ok.injEq, List.cons_inj_right]

/-- A response is parsed row by row, unless a row of it raises. -/
theorem parseCatalogResponse_rowLocal_iff (payload : List (List CodePoint × JsonValue)) :
    p.parseCatalogResponse payload = .ok ((responseRows payload).filterMap p.ownEntry)
      ↔ ∀ row ∈ responseRows payload, ¬ p.RowRaises row := by
  rw [parseCatalogResponse, parseRows_ok_iff]
  exact forall₂_congr fun row _ => parseCatalogRow_ok_iff row

/-- The tables on ASCII. -/
def asciiCatalogTables : CatalogTables :=
  { isspace := Char.isWhitespace
    decimalValue := fun _ => none
    lower := List.map (Sum.map Char.toLower id) }

/-- A row with a model, and its prices. -/
def sampleRow (modelId prompt completion : String) : JsonValue :=
  .obj [(ofText "id".toList, .str (ofText modelId.toList)),
    (ofText "name".toList, .str (ofText modelId.toList)),
    (ofText "pricing".toList,
      .obj [(ofText "prompt".toList, .str (ofText prompt.toList)),
        (ofText "completion".toList, .str (ofText completion.toList))])]

/-- A row whose price is read and overflows, before a row that has an entry of its own. -/
def samplePayload : List (List CodePoint × JsonValue) :=
  [(ofText "data".toList, .arr [sampleRow "a/b" "1e999999" "0", sampleRow "c/d" "0.00015" "0.0006"])]

/-- One row takes the whole catalog down. -/
theorem parseCatalogResponse_overflows :
    asciiCatalogTables.parseCatalogResponse samplePayload = .error .overflow
      ∧ ((responseRows samplePayload).filterMap asciiCatalogTables.ownEntry).length = 1 :=
  ⟨rfl, by decide +kernel⟩

end CatalogTables

end Quorum
