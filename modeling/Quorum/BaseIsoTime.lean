import Mathlib.Data.Char
import Mathlib.Data.List.Lex
import Mathlib.Order.Fin.Basic
import Mathlib.Tactic

/-! UTC instants of the proleptic Gregorian calendar at microsecond resolution, years 1 to 9999, and
their ISO 8601 text `YYYY-MM-DDTHH:MM:SS[.ffffff]+00:00`. The fraction is left out when it is zero.
The text order agrees with the time order, the omitted fraction included, since `+` precedes `.`; so
a store that keeps the texts may compare them in place of the instants. -/

namespace IsoTime

/-- A text, compared by the code points of its characters. -/
abbrev Text := List Char

/-! ### Fixed-width decimals -/

def digit (n : Nat) : Char := Char.ofNat (48 + n)

/-- The decimal digits of `n`, exactly `width` of them, most significant first. -/
def pad : Nat → Nat → Text
  | 0, _ => []
  | width + 1, n => digit (n / 10 ^ width) :: pad width (n % 10 ^ width)

@[simp] theorem length_pad (width n : Nat) : (pad width n).length = width := by
  induction width generalizing n with
  | zero => rfl
  | succ width ih => simp [pad, ih]

theorem digit_lt {m n : Nat} (hlt : m < n) (hn : n < 10) : digit m < digit n := by
  have hall : ∀ b : Fin 10, ∀ a : Fin 10, a < b → digit a < digit b := by decide
  exact hall ⟨n, hn⟩ ⟨m, hlt.trans hn⟩ hlt

/-- Padded decimals of one width are ordered as the numbers are. -/
theorem pad_lt {width m n : Nat} (hlt : m < n) (hn : n < 10 ^ width) :
    pad width m < pad width n := by
  induction width generalizing m n with
  | zero => simp at hn; omega
  | succ width ih =>
      have hpos : 0 < 10 ^ width := by positivity
      have hdigit : n / 10 ^ width < 10 := Nat.div_lt_of_lt_mul (by rw [← pow_succ]; exact hn)
      rw [pad, pad, List.cons_lt_cons_iff]
      rcases Nat.lt_or_eq_of_le (Nat.div_le_div_right (c := 10 ^ width) hlt.le) with hq | hq
      · exact .inl (digit_lt hq hdigit)
      · refine .inr ⟨congrArg digit hq, ih ?_ (Nat.mod_lt _ hpos)⟩
        have hm := Nat.div_add_mod m (10 ^ width)
        have hn' := Nat.div_add_mod n (10 ^ width)
        rw [hq] at hm
        omega

/-- Texts of one length that differ decide the order of everything written after them. -/
theorem lt_append_of_lt {s t : Text} (hlen : s.length = t.length) (hlt : s < t) (x y : Text) :
    s ++ x < t ++ y := by
  induction s generalizing t with
  | nil =>
      cases t with
      | nil => exact absurd hlt (List.lt_irrefl [])
      | cons b t => simp at hlen
  | cons a s ih =>
      cases t with
      | nil => simp at hlen
      | cons b t =>
          rw [List.cons_append, List.cons_append, List.cons_lt_cons_iff]
          rcases List.cons_lt_cons_iff.1 hlt with hab | ⟨rfl, hst⟩
          · exact .inl hab
          · exact .inr ⟨rfl, ih (by simpa using hlen) hst⟩

/-! ### Calendar fields -/

/-- The interval of consecutive lengths in which an offset falls, and the offset inside it. -/
def locate : List Nat → Nat → Nat × Nat
  | [], n => (0, n)
  | len :: rest, n =>
      if n < len then (0, n) else ((locate rest (n - len)).1 + 1, (locate rest (n - len)).2)

theorem locate_lt (lengths : List Nat) {m n : Nat} (hlt : m < n) :
    (locate lengths m).1 < (locate lengths n).1 ∨
      (locate lengths m).1 = (locate lengths n).1
      ∧ (locate lengths m).2 < (locate lengths n).2 := by
  induction lengths generalizing m n with
  | nil => exact .inr ⟨rfl, hlt⟩
  | cons len rest ih =>
      by_cases hm : m < len
      · by_cases hn : n < len
        · simpa [locate, hm, hn] using hlt
        · simp [locate, hm, hn]
      · have hn : ¬n < len := by omega
        simpa [locate, hm, hn] using ih (m := m - len) (n := n - len) (by omega)

theorem locate_index_lt {lengths : List Nat} {n : Nat} (h : n < lengths.sum) :
    (locate lengths n).1 < lengths.length := by
  induction lengths generalizing n with
  | nil => simp at h
  | cons len rest ih =>
      by_cases hn : n < len
      · simp [locate, hn]
      · have hrest := ih (n := n - len) (by rw [List.sum_cons] at h; omega)
        simpa [locate, hn] using hrest

theorem locate_offset_lt {lengths : List Nat} {n : Nat} (h : n < lengths.sum) :
    (locate lengths n).2 < (lengths[(locate lengths n).1]?).getD 0 := by
  induction lengths generalizing n with
  | nil => simp at h
  | cons len rest ih =>
      by_cases hn : n < len
      · simp [locate, hn]
      · have hrest := ih (n := n - len) (by rw [List.sum_cons] at h; omega)
        simpa [locate, hn] using hrest

def isLeap (year : Nat) : Bool := year % 4 = 0 ∧ (year % 100 ≠ 0 ∨ year % 400 = 0)

def daysInYear (year : Nat) : Nat := if isLeap year then 366 else 365

def monthLengths (year : Nat) : List Nat :=
  [31, if isLeap year then 29 else 28, 31, 30, 31, 30, 31, 31, 30, 31, 30, 31]

theorem sum_monthLengths (year : Nat) : (monthLengths year).sum = daysInYear year := by
  unfold monthLengths daysInYear
  cases isLeap year <;> rfl

theorem monthLengths_le {year len : Nat} (h : len ∈ monthLengths year) : len ≤ 31 := by
  unfold monthLengths at h
  split at h <;> fin_cases h <;> decide

/-- The lengths of the years 1 to 9999. -/
def yearLengths : List Nat := (List.range' 1 9999).map daysInYear

def maxDays : Nat := 3652059

theorem sum_daysInYear (n : Nat) :
    ((List.range' 1 n).map daysInYear).sum = 365 * n + (n / 4 - n / 100 + n / 400) := by
  induction n with
  | zero => rfl
  | succ n ih =>
      rw [List.range'_concat, List.map_append, List.sum_append, ih]
      have hlast : daysInYear (1 + 1 * n) =
          if (n + 1) % 4 = 0 ∧ ((n + 1) % 100 ≠ 0 ∨ (n + 1) % 400 = 0) then 366 else 365 := by
        simp [daysInYear, isLeap, Nat.add_comm]
      simp only [List.map_cons, List.map_nil, List.sum_cons, List.sum_nil, hlast]
      split <;> omega

theorem getD_yearLengths {index : Nat} (h : index < 9999) :
    (yearLengths[index]?).getD 0 = daysInYear (index + 1) := by
  rw [yearLengths, List.getElem?_map, List.getElem?_range' h]
  simp [Nat.add_comm]

theorem sum_yearLengths : yearLengths.sum = maxDays := sum_daysInYear 9999

/-! ### Instants -/

def microsPerSecond : Nat := 1000000

def microsPerDay : Nat := 86400000000

/-- Microseconds since 0001-01-01T00:00:00Z, up to the end of the year 9999. -/
abbrev Instant := Fin (maxDays * microsPerDay)

/-- The calendar date of a day counted from 0001-01-01. -/
def dateText (day : Nat) : Text :=
  let year := locate yearLengths day
  let month := locate (monthLengths (year.1 + 1)) year.2
  pad 4 (year.1 + 1) ++ ('-' :: (pad 2 (month.1 + 1) ++ ('-' :: pad 2 (month.2 + 1))))

def timeText (second : Nat) : Text :=
  pad 2 (second / 3600) ++ (':' :: (pad 2 (second / 60 % 60) ++ (':' :: pad 2 (second % 60))))

def utcOffset : Text := ['+', '0', '0', ':', '0', '0']

def fractionText (micros : Nat) : Text :=
  if micros = 0 then utcOffset else '.' :: (pad 6 micros ++ utcOffset)

def isoformat (t : Instant) : Text :=
  dateText (t.val / microsPerDay) ++
    ('T' :: (timeText (t.val / microsPerSecond % 86400) ++ fractionText (t.val % microsPerSecond)))

theorem utcOffset_suffix_isoformat (t : Instant) : utcOffset <:+ isoformat t := by
  have hfraction : utcOffset <:+ fractionText (t.val % microsPerSecond) := by
    rw [fractionText]
    split_ifs
    · exact List.suffix_rfl
    · exact (List.suffix_append _ _).trans (List.suffix_cons _ _)
  refine hfraction.trans ?_
  rw [isoformat]
  exact (List.suffix_append _ _).trans ((List.suffix_cons _ _).trans (List.suffix_append _ _))

@[simp] theorem length_dateText (day : Nat) : (dateText day).length = 10 := by simp [dateText]

@[simp] theorem length_timeText (second : Nat) : (timeText second).length = 8 := by simp [timeText]

/-- The fields of a date of the calendar are in their ranges. -/
theorem date_bounds {day : Nat} (h : day < maxDays) :
    let year := locate yearLengths day
    let month := locate (monthLengths (year.1 + 1)) year.2
    year.1 < 9999 ∧ month.1 < 12 ∧ month.2 < 31 := by
  rw [← sum_yearLengths] at h
  have hyear := locate_index_lt h
  have hoffset := locate_offset_lt h
  rw [yearLengths, List.length_map, List.length_range', ← yearLengths] at hyear
  rw [getD_yearLengths hyear, ← sum_monthLengths] at hoffset
  have hmonth := locate_index_lt hoffset
  have hday := locate_offset_lt hoffset
  rw [List.getElem?_eq_getElem hmonth, Option.getD_some] at hday
  exact ⟨hyear, hmonth, hday.trans_le (monthLengths_le (List.getElem_mem hmonth))⟩

theorem dateText_lt {m n : Nat} (hlt : m < n) (hn : n < maxDays) : dateText m < dateText n := by
  obtain ⟨hyear, hmonth, hday⟩ := date_bounds hn
  unfold dateText
  rcases locate_lt yearLengths hlt with hy | ⟨hy, hoffset⟩
  · exact lt_append_of_lt (by simp) (pad_lt (by omega) (by omega)) _ _
  · simp only [hy]
    refine List.append_left_lt (List.cons_lt_cons_self.2 ?_)
    rcases locate_lt (monthLengths ((locate yearLengths n).1 + 1)) hoffset with hm | ⟨hm, hd⟩
    · exact lt_append_of_lt (by simp) (pad_lt (by omega) (by omega)) _ _
    · simp only [hm]
      exact List.append_left_lt (List.cons_lt_cons_self.2 (pad_lt (by omega) (by omega)))

theorem timeText_lt {m n : Nat} (hlt : m < n) (hn : n < 86400) : timeText m < timeText n := by
  unfold timeText
  rcases Nat.lt_or_eq_of_le (Nat.div_le_div_right (c := 3600) hlt.le) with hh | hh
  · exact lt_append_of_lt (by simp) (pad_lt hh (by omega)) _ _
  · rw [hh]
    refine List.append_left_lt (List.cons_lt_cons_self.2 ?_)
    rcases Nat.lt_or_ge (m / 60 % 60) (n / 60 % 60) with hm | hm
    · exact lt_append_of_lt (by simp) (pad_lt hm (by omega)) _ _
    · have heq : m / 60 % 60 = n / 60 % 60 := by omega
      rw [heq]
      exact List.append_left_lt (List.cons_lt_cons_self.2 (pad_lt (by omega) (by omega)))

theorem fractionText_lt {m n : Nat} (hlt : m < n) (hn : n < microsPerSecond) :
    fractionText m < fractionText n := by
  unfold fractionText
  rw [if_neg (by omega : ¬n = 0)]
  by_cases hm : m = 0
  -- the text without a fraction goes on with `+`, the other with `.`
  · rw [if_pos hm, utcOffset, List.cons_lt_cons_iff]
    exact .inl (by decide)
  · rw [if_neg hm]
    exact List.cons_lt_cons_self.2 (lt_append_of_lt (by simp) (pad_lt hlt hn) _ _)

/-- The text of an instant is ordered as the instant is. -/
theorem isoformat_strictMono : StrictMono isoformat := by
  intro t u hlt
  have hval : t.val < u.val := hlt
  have hu := u.isLt
  simp only [isoformat, maxDays, microsPerDay, microsPerSecond] at hu ⊢
  rcases Nat.lt_or_eq_of_le (Nat.div_le_div_right (c := 86400000000) hval.le) with hd | hd
  · exact lt_append_of_lt (by simp) (dateText_lt hd (by unfold maxDays; omega)) _ _
  · rw [hd]
    refine List.append_left_lt (List.cons_lt_cons_self.2 ?_)
    rcases Nat.lt_or_ge (t.val / 1000000 % 86400) (u.val / 1000000 % 86400) with hs | hs
    · exact lt_append_of_lt (by simp) (timeText_lt hs (by omega)) _ _
    · have heq : t.val / 1000000 % 86400 = u.val / 1000000 % 86400 := by omega
      rw [heq]
      exact List.append_left_lt (fractionText_lt (by omega) (by unfold microsPerSecond; omega))

theorem isoformat_lt_iff {t u : Instant} : isoformat t < isoformat u ↔ t < u :=
  isoformat_strictMono.lt_iff_lt

theorem isoformat_le_iff {t u : Instant} : isoformat t ≤ isoformat u ↔ t ≤ u :=
  isoformat_strictMono.le_iff_le

example : isoformat ⟨63902822400000000, by decide⟩ =
    ['2', '0', '2', '6', '-', '0', '1', '-', '0', '1', 'T', '0', '0', ':', '0', '0', ':', '0', '0',
      '+', '0', '0', ':', '0', '0'] := by decide +kernel

/-! ### Reading a text back -/

def digitValue (c : Char) : Nat := c.toNat - 48

theorem digitValue_digit {n : Nat} (h : n < 10) : digitValue (digit n) = n := by
  have hall : ∀ a : Fin 10, digitValue (digit a) = a := by decide
  exact hall ⟨n, h⟩

/-- The number that a text of decimal digits denotes. -/
def ofDigits : Text → Nat
  | [] => 0
  | c :: rest => digitValue c * 10 ^ rest.length + ofDigits rest

theorem ofDigits_pad {width n : Nat} (h : n < 10 ^ width) : ofDigits (pad width n) = n := by
  induction width generalizing n with
  | zero => simp at h; simp [pad, ofDigits, h]
  | succ width ih =>
      have hpos : 0 < 10 ^ width := by positivity
      have hdigit : n / 10 ^ width < 10 := Nat.div_lt_of_lt_mul (by rw [← pow_succ]; exact h)
      rw [pad, ofDigits, length_pad, digitValue_digit hdigit, ih (Nat.mod_lt _ hpos), Nat.mul_comm]
      exact Nat.div_add_mod n (10 ^ width)

/-- The number in the first `width` characters, and the text behind them. -/
def readNumber (width : Nat) (s : Text) : Nat × Text := (ofDigits (s.take width), s.drop width)

theorem readNumber_pad {width n : Nat} (h : n < 10 ^ width) (rest : Text) :
    readNumber width (pad width n ++ rest) = (n, rest) := by
  have hlen : (pad width n).length = width := length_pad width n
  rw [readNumber, List.take_left' hlen, List.drop_left' hlen, ofDigits_pad h]

/-- The offset at which a given interval of consecutive lengths begins. -/
def offsetOf (lengths : List Nat) (index : Nat) : Nat := (lengths.take index).sum

theorem offsetOf_locate (lengths : List Nat) (n : Nat) :
    offsetOf lengths (locate lengths n).1 + (locate lengths n).2 = n := by
  induction lengths generalizing n with
  | nil => simp [locate, offsetOf]
  | cons len rest ih =>
      by_cases hn : n < len
      · simp [locate, hn, offsetOf]
      · have hrest := ih (n - len)
        simp only [locate, hn, if_false, offsetOf, List.take_succ_cons, List.sum_cons] at hrest ⊢
        omega

/-- The microseconds that the calendar fields of a text stand for. -/
def readMicros (s : Text) : Nat :=
  let year := readNumber 4 s
  let month := readNumber 2 (year.2.drop 1)
  let day := readNumber 2 (month.2.drop 1)
  let hour := readNumber 2 (day.2.drop 1)
  let minute := readNumber 2 (hour.2.drop 1)
  let second := readNumber 2 (minute.2.drop 1)
  let micros := if second.2 = utcOffset then 0 else (readNumber 6 (second.2.drop 1)).1
  (offsetOf yearLengths (year.1 - 1) +
    (offsetOf (monthLengths year.1) (month.1 - 1) + (day.1 - 1))) *
      microsPerDay +
    (hour.1 * 3600 + minute.1 * 60 + second.1) * microsPerSecond + micros

/-- Read a text in the form that `isoformat` writes. A text in any other form, one without an offset
among them, is refused. -/
def fromisoformat (s : Text) : Option Instant :=
  if h : readMicros s < maxDays * microsPerDay then
    if isoformat ⟨readMicros s, h⟩ = s then some ⟨readMicros s, h⟩ else none
  else none

theorem isoformat_fromisoformat {s : Text} {t : Instant} (h : fromisoformat s = some t) :
    isoformat t = s := by
  unfold fromisoformat at h
  split_ifs at h with hbound hform
  exact Option.some.inj h ▸ hform

theorem readMicros_fields {year month day hour minute second : Nat} (hyear : year < 10 ^ 4)
    (hmonth : month < 10 ^ 2) (hday : day < 10 ^ 2) (hhour : hour < 10 ^ 2)
    (hminute : minute < 10 ^ 2) (hsecond : second < 10 ^ 2) {micros : Nat}
    (hmicros : micros < 10 ^ 6) :
    readMicros (pad 4 year ++ ('-' :: (pad 2 month ++ ('-' :: (pad 2 day ++ ('T' :: (pad 2 hour ++
      (':' :: (pad 2 minute ++ (':' :: (pad 2 second ++ fractionText micros))))))))))) =
    (offsetOf yearLengths (year - 1) + (offsetOf (monthLengths year) (month - 1) + (day - 1))) *
        microsPerDay +
      (hour * 3600 + minute * 60 + second) * microsPerSecond + micros := by
  have hfraction : (if fractionText micros = utcOffset then 0
      else (readNumber 6 ((fractionText micros).drop 1)).1) = micros := by
    by_cases hzero : micros = 0
    · simp [fractionText, hzero]
    · have hne : '.' :: (pad 6 micros ++ utcOffset) ≠ utcOffset := by simp [utcOffset]
      rw [fractionText, if_neg hzero, if_neg hne, List.drop_one, List.tail_cons,
        readNumber_pad hmicros]
  simp only [readMicros, readNumber_pad hyear, readNumber_pad hmonth, readNumber_pad hday,
    readNumber_pad hhour, readNumber_pad hminute, readNumber_pad hsecond, List.drop_one,
    List.tail_cons]
  rw [← List.drop_one, hfraction]

theorem readMicros_isoformat (t : Instant) : readMicros (isoformat t) = t.val := by
  have ht := t.isLt
  have hdays : t.val / microsPerDay < maxDays := (Nat.div_lt_iff_lt_mul (by decide)).2 ht
  have hmicros : t.val % microsPerSecond < 10 ^ 6 := Nat.mod_lt _ (by decide)
  obtain ⟨hyear, hmonth, hday⟩ := date_bounds hdays
  simp only [isoformat, dateText, timeText, List.append_assoc, List.cons_append]
  rw [readMicros_fields (by omega) (by omega) (by omega) (by omega) (by omega) (by omega) hmicros]
  simp only [Nat.add_sub_cancel, offsetOf_locate]
  simp only [microsPerDay, microsPerSecond]
  omega

/-- Every text that `isoformat` writes is read back. -/
theorem fromisoformat_isoformat (t : Instant) : fromisoformat (isoformat t) = some t := by
  unfold fromisoformat
  have hmicros := readMicros_isoformat t
  rw [dif_pos (by rw [hmicros]; exact t.isLt)]
  have heq : (⟨readMicros (isoformat t), by rw [hmicros]; exact t.isLt⟩ : Instant) = t :=
    Fin.ext hmicros
  rw [heq, if_pos rfl]

/-! ### Shifts

A shift that would leave the calendar stops at its end. -/

/-- The instant `span` microseconds earlier. -/
def Instant.back (t : Instant) (span : Nat) : Instant := ⟨t.val - span, by omega⟩

/-- The instant `span` microseconds later. -/
def Instant.ahead (t : Instant) (span : Nat) : Instant :=
  ⟨min (t.val + span) (maxDays * microsPerDay - 1), by unfold maxDays microsPerDay; omega⟩

theorem Instant.back_le (t : Instant) (span : Nat) : t.back span ≤ t := Nat.sub_le _ _

theorem Instant.le_ahead (t : Instant) (span : Nat) : t ≤ t.ahead span := by
  have ht := t.isLt
  show t.val ≤ min (t.val + span) (maxDays * microsPerDay - 1)
  omega

theorem Instant.back_le_back {t u : Instant} (h : t ≤ u) {span span' : Nat} (hspan : span' ≤ span) :
    t.back span ≤ u.back span' :=
  (Nat.sub_le_sub_right h span).trans (Nat.sub_le_sub_left hspan u.val)

theorem Instant.back_mono {t u : Instant} (h : t ≤ u) (span : Nat) : t.back span ≤ u.back span :=
  Nat.sub_le_sub_right h span

theorem Instant.lt_back_iff {t u : Instant} {span : Nat} : t < u.back span ↔ t.val + span < u.val :=
  Nat.lt_sub_iff_add_lt

end IsoTime
