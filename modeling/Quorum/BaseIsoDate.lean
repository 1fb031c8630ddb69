import Quorum.BaseIsoTime

/-! Dates of the proleptic Gregorian calendar, years 1 to 9999, and their ISO 8601 text
`YYYY-MM-DD`. A text of that form is read only when its digits are ASCII and its fields are a date,
and then it is what the date is written as. -/

namespace IsoTime

/-- Days since 0001-01-01, up to the end of the year 9999. -/
abbrev Date := Fin maxDays

/-- A date some days later, while the calendar has it. -/
def Date.addDays (date : Date) (days : Nat) : Option Date :=
  if h : date.val + days < maxDays then some ⟨date.val + days, h⟩ else none

theorem Date.addDays_eq_none_iff {date : Date} {days : Nat} :
    date.addDays days = none ↔ maxDays ≤ date.val + days := by
  rw [addDays]
  split_ifs with h
  · exact iff_of_false (by simp) (Nat.not_le_of_lt h)
  · exact iff_of_true rfl (Nat.le_of_not_lt h)

theorem Date.addDays_eq_some_iff {date later : Date} {days : Nat} :
    date.addDays days = some later ↔ later.val = date.val + days := by
  rw [addDays]
  split_ifs with h
  · rw [Option.some_inj, Fin.ext_iff]
    exact eq_comm
  · refine iff_of_false (by simp) fun heq => h ?_
    rw [← heq]
    exact later.isLt

/-! ### Digits -/

theorem isDigit_iff {ch : Char} : ch.isDigit = true ↔ 48 ≤ ch.toNat ∧ ch.toNat ≤ 57 := by
  rw [Char.isDigit, Bool.and_eq_true, decide_eq_true_eq, decide_eq_true_eq]
  exact Iff.rfl

theorem isDigit_digit {n : Nat} (h : n < 10) : (digit n).isDigit = true := by
  have hall : ∀ a : Fin 10, (digit a).isDigit = true := by decide
  exact hall ⟨n, h⟩

theorem digit_digitValue {ch : Char} (h : ch.isDigit = true) : digit (digitValue ch) = ch := by
  obtain ⟨hlow, -⟩ := isDigit_iff.mp h
  rw [digit, digitValue, Nat.add_sub_cancel' hlow]
  exact Char.ofNat_toNat ch

theorem digitValue_lt {ch : Char} (h : ch.isDigit = true) : digitValue ch < 10 := by
  obtain ⟨-, hhigh⟩ := isDigit_iff.mp h
  rw [digitValue]
  omega

theorem isDigit_pad (width n : Nat) (h : n < 10 ^ width) : ∀ ch ∈ pad width n,
    ch.isDigit = true := by
  induction width generalizing n with
  | zero => exact fun _ hmem => nomatch hmem
  | succ width ih =>
      have hpos : 0 < 10 ^ width := by positivity
      refine List.forall_mem_cons.mpr ⟨isDigit_digit ?_, ih _ (Nat.mod_lt _ hpos)⟩
      exact Nat.div_lt_of_lt_mul (by rw [← pow_succ]; exact h)

theorem ofDigits_lt {s : Text} (h : ∀ ch ∈ s, ch.isDigit = true) : ofDigits s < 10 ^ s.length := by
  induction s with
  | nil => exact Nat.one_pos
  | cons ch s ih =>
      have hhead := digitValue_lt (h ch List.mem_cons_self)
      have htail := ih fun other hother => h other (List.mem_cons_of_mem _ hother)
      rw [ofDigits, List.length_cons, pow_succ]
      nlinarith

/-- A text of digits is its number, padded to its length. -/
theorem pad_ofDigits {s : Text} (h : ∀ ch ∈ s, ch.isDigit = true) :
    pad s.length (ofDigits s) = s := by
  induction s with
  | nil => rfl
  | cons ch s ih =>
      have hhead := h ch List.mem_cons_self
      have htail : ∀ other ∈ s, other.isDigit = true :=
        fun other hother => h other (List.mem_cons_of_mem _ hother)
      have hlt := ofDigits_lt htail
      have hpos : 0 < 10 ^ s.length := by positivity
      rw [List.length_cons, pad, ofDigits, Nat.add_comm, Nat.add_mul_div_right _ _ hpos,
        Nat.div_eq_of_lt hlt, Nat.zero_add, digit_digitValue hhead, Nat.add_mul_mod_self_right,
        Nat.mod_eq_of_lt hlt, ih htail]

/-! ### Calendar fields -/

/-- An offset inside an interval falls in it. -/
theorem locate_offsetOf {lengths : List Nat} {index offset : Nat}
    (h : offset < (lengths[index]?).getD 0) :
    locate lengths (offsetOf lengths index + offset) = (index, offset) := by
  induction lengths generalizing index with
  | nil => exact absurd h (Nat.not_lt_zero _)
  | cons len rest ih =>
      cases index with
      | zero =>
          rw [List.getElem?_cons_zero, Option.getD_some] at h
          rw [offsetOf, List.take_zero, List.sum_nil, Nat.zero_add, locate, if_pos h]
      | succ index =>
          rw [List.getElem?_cons_succ] at h
          have hrest := ih h
          rw [offsetOf] at hrest
          have hback : (rest.take index).sum + len + offset - len = (rest.take index).sum
              + offset := by omega
          rw [offsetOf, List.take_succ_cons, List.sum_cons, Nat.add_comm len, locate,
            if_neg (by omega), hback, hrest]

theorem offsetOf_add_lt {lengths : List Nat} {index offset : Nat}
    (h : offset < (lengths[index]?).getD 0) :
    offsetOf lengths index + offset < lengths.sum := by
  induction lengths generalizing index with
  | nil => exact absurd h (Nat.not_lt_zero _)
  | cons len rest ih =>
      cases index with
      | zero =>
          rw [List.getElem?_cons_zero, Option.getD_some] at h
          rw [offsetOf, List.take_zero, List.sum_nil, List.sum_cons]
          omega
      | succ index =>
          rw [List.getElem?_cons_succ] at h
          have hrest := ih h
          rw [offsetOf] at hrest
          rw [offsetOf, List.take_succ_cons, List.sum_cons, List.sum_cons]
          omega

/-- The days of a month, none when there is no such month. -/
def daysInMonth (year month : Nat) : Nat := ((monthLengths year)[month - 1]?).getD 0

/-- The fields of a date. -/
structure ValidFields (year month day : Nat) : Prop where
  yearRange : 1 ≤ year ∧ year ≤ 9999
  monthRange : 1 ≤ month ∧ month ≤ 12
  dayRange : 1 ≤ day ∧ day ≤ daysInMonth year month

instance (year month day : Nat) : Decidable (ValidFields year month day) :=
  decidable_of_iff ((1 ≤ year ∧ year ≤ 9999) ∧ (1 ≤ month ∧ month ≤ 12) ∧ 1 ≤ day
    ∧ day ≤ daysInMonth year month)
    ⟨fun h => ⟨h.1, h.2.1, h.2.2⟩, fun h => ⟨h.yearRange, h.monthRange, h.dayRange⟩⟩

/-- The day that the fields stand for. -/
def dayOf (year month day : Nat) : Nat :=
  offsetOf yearLengths (year - 1) + (offsetOf (monthLengths year) (month - 1) + (day - 1))

theorem ValidFields.month_offset {year month day : Nat} (h : ValidFields year month day) :
    day - 1 < ((monthLengths year)[month - 1]?).getD 0 := by
  have hday := h.dayRange
  rw [daysInMonth] at hday
  omega

theorem ValidFields.year_offset {year month day : Nat} (h : ValidFields year month day) :
    offsetOf (monthLengths year) (month - 1) + (day - 1) < (yearLengths[year - 1]?).getD 0 := by
  have hyear := h.yearRange
  have hlt := offsetOf_add_lt h.month_offset
  rw [getD_yearLengths (by omega), Nat.sub_add_cancel hyear.1, ← sum_monthLengths]
  exact hlt

theorem ValidFields.dayOf_lt {year month day : Nat} (h : ValidFields year month day) :
    dayOf year month day < maxDays := by
  rw [← sum_yearLengths]
  exact offsetOf_add_lt h.year_offset

/-- The text of the day that the fields stand for is the fields. -/
theorem ValidFields.dateText_dayOf {year month day : Nat} (h : ValidFields year month day) :
    dateText (dayOf year month day) = pad 4 year
      ++ ('-' :: (pad 2 month ++ ('-' :: pad 2 day))) := by
  have hyear := h.yearRange
  have hmonth := h.monthRange
  have hday := h.dayRange
  rw [dateText, dayOf, locate_offsetOf h.year_offset]
  simp only [Nat.sub_add_cancel hyear.1]
  rw [locate_offsetOf h.month_offset]
  simp only [Nat.sub_add_cancel hmonth.1, Nat.sub_add_cancel hday.1]

/-! ### Reading a date -/

/-- The date that a text `YYYY-MM-DD` stands for. -/
def dateFromisoformat : Text → Option Date
  | [y₁, y₂, y₃, y₄, '-', m₁, m₂, '-', d₁, d₂] =>
      if [y₁, y₂, y₃, y₄, m₁, m₂, d₁, d₂].all Char.isDigit then
        if h : ValidFields (ofDigits [y₁, y₂, y₃, y₄]) (ofDigits [m₁, m₂]) (ofDigits [d₁, d₂]) then
          some ⟨dayOf (ofDigits [y₁, y₂, y₃, y₄]) (ofDigits [m₁, m₂]) (ofDigits [d₁, d₂]),
            h.dayOf_lt⟩
        else none
      else none
  | _ => none

/-- What is read as a date is how the date is written. -/
theorem dateText_of_dateFromisoformat {s : Text} {date : Date}
    (h : dateFromisoformat s = some date) : dateText date = s := by
  unfold dateFromisoformat at h
  split at h
  · rename_i y₁ y₂ y₃ y₄ m₁ m₂ d₁ d₂
    split_ifs at h with hdigits hvalid
    obtain rfl := Option.some.inj h
    have hall := List.all_eq_true.mp hdigits
    have hyear := @pad_ofDigits [y₁, y₂, y₃, y₄] fun ch hch => hall ch (by
      simp only [List.mem_cons, List.not_mem_nil, or_false] at hch ⊢
      tauto)
    have hmonth := @pad_ofDigits [m₁, m₂] fun ch hch => hall ch (by
      simp only [List.mem_cons, List.not_mem_nil, or_false] at hch ⊢
      tauto)
    have hday := @pad_ofDigits [d₁, d₂] fun ch hch => hall ch (by
      simp only [List.mem_cons, List.not_mem_nil, or_false] at hch ⊢
      tauto)
    rw [hvalid.dateText_dayOf]
    simp only [List.length_cons, List.length_nil, Nat.zero_add, Nat.reduceAdd] at hyear hmonth hday
    rw [hyear, hmonth, hday]
    rfl
  · exact absurd h (by simp)

theorem validFields_of_day (date : Date) :
    let year := locate yearLengths date
    let month := locate (monthLengths (year.1 + 1)) year.2
    ValidFields (year.1 + 1) (month.1 + 1) (month.2 + 1)
    ∧ dayOf (year.1 + 1) (month.1 + 1) (month.2 + 1) = date := by
  have hdate : date.val < yearLengths.sum := by
    rw [sum_yearLengths]
    exact date.isLt
  obtain ⟨hyear, hmonth, -⟩ := date_bounds date.isLt
  have hoffset := locate_offset_lt hdate
  rw [getD_yearLengths hyear, ← sum_monthLengths] at hoffset
  have hday := locate_offset_lt hoffset
  refine ⟨⟨⟨by omega, by omega⟩, ⟨by omega, by omega⟩, ⟨by omega, ?_⟩⟩, ?_⟩
  · rw [daysInMonth, Nat.add_sub_cancel]
    exact hday
  · rw [dayOf, Nat.add_sub_cancel, Nat.add_sub_cancel, Nat.add_sub_cancel, offsetOf_locate,
      offsetOf_locate]

theorem ValidFields.lt_pow {year month day : Nat} (h : ValidFields year month day) :
    year < 10 ^ 4 ∧ month < 10 ^ 2 ∧ day < 10 ^ 2 := by
  have hyear := h.yearRange
  have hmonth := h.monthRange
  have hday := h.dayRange
  have hlast : daysInMonth year month ≤ 31 := by
    rw [daysInMonth]
    cases hget : (monthLengths year)[month - 1]? with
    | none => exact Nat.zero_le _
    | some len => exact monthLengths_le (List.mem_of_getElem? hget)
  omega

theorem dateFromisoformat_fields {year month day : Nat} (h : ValidFields year month day) :
    dateFromisoformat (pad 4 year ++ ('-' :: (pad 2 month ++ ('-' :: pad 2 day))))
      = some ⟨dayOf year month day, h.dayOf_lt⟩ := by
  obtain ⟨hyear, hmonth, hday⟩ := h.lt_pow
  have hyearDigits := isDigit_pad 4 year hyear
  have hmonthDigits := isDigit_pad 2 month hmonth
  have hdayDigits := isDigit_pad 2 day hday
  have hyearNumber := ofDigits_pad hyear
  have hmonthNumber := ofDigits_pad hmonth
  have hdayNumber := ofDigits_pad hday
  obtain ⟨y₁, y₂, y₃, y₄, hyearText⟩ : ∃ y₁ y₂ y₃ y₄, pad 4 year = [y₁, y₂, y₃, y₄] :=
    ⟨_, _, _, _, rfl⟩
  obtain ⟨m₁, m₂, hmonthText⟩ : ∃ m₁ m₂, pad 2 month = [m₁, m₂] := ⟨_, _, rfl⟩
  obtain ⟨d₁, d₂, hdayText⟩ : ∃ d₁ d₂, pad 2 day = [d₁, d₂] := ⟨_, _, rfl⟩
  rw [hyearText] at hyearDigits hyearNumber ⊢
  rw [hmonthText] at hmonthDigits hmonthNumber ⊢
  rw [hdayText] at hdayDigits hdayNumber ⊢
  subst hyearNumber hmonthNumber hdayNumber
  have hdigits : [y₁, y₂, y₃, y₄, m₁, m₂, d₁, d₂].all Char.isDigit = true := by
    have hall : ∀ ch ∈ [y₁, y₂, y₃, y₄] ++ ([m₁, m₂] ++ [d₁, d₂]), ch.isDigit = true :=
      List.forall_mem_append.mpr ⟨hyearDigits,
        List.forall_mem_append.mpr ⟨hmonthDigits, hdayDigits⟩⟩
    exact List.all_eq_true.mpr hall
  simp only [List.cons_append, List.nil_append, dateFromisoformat]
  rw [if_pos hdigits, dif_pos h]

/-- Every date is read back from its text. -/
theorem dateFromisoformat_dateText (date : Date) :
    dateFromisoformat (dateText date) = some date := by
  obtain ⟨hvalid, hday⟩ := validFields_of_day date
  rw [dateText, dateFromisoformat_fields hvalid]
  exact congrArg some (Fin.ext hday)

theorem dateText_injective {m n : Date} (h : dateText m = dateText n) : m = n :=
  Option.some.inj (((dateFromisoformat_dateText m).symm.trans (congrArg _ h)).trans
    (dateFromisoformat_dateText n))

end IsoTime
