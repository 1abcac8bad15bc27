/-
  **The texts of datetimes and UUIDs.**

  `datetime.isoformat` and `str(UUID)` as Python writes them: they are read back as what they
  denote, and they sort as what they denote.
-/
import Mathlib.Data.Nat.Find
import Tamoss.Lib.Numerals

namespace Tamoss

open Lib

def isLeap (year : Nat) : Bool :=
  year % 4 = 0 ∧ (year % 100 ≠ 0 ∨ year % 400 = 0)

def daysInMonth (year month : Nat) : Nat :=
  if month = 2 then (if isLeap year then 29 else 28)
  else if month ∈ [4, 6, 9, 11] then 30 else 31

def daysBeforeYear (year : Nat) : Nat :=
  (year - 1) * 365 + (year - 1) / 4 - (year - 1) / 100 + (year - 1) / 400

def daysBeforeMonth (year : Nat) : Nat → Nat
  | 0 => 0
  | 1 => 0
  | month + 2 => daysBeforeMonth year (month + 1) + daysInMonth year (month + 1)

/-- `datetime`, in UTC -/
structure Datetime where
  year : Nat
  month : Nat
  day : Nat
  hour : Nat
  minute : Nat
  second : Nat
  microsecond : Nat
  year_pos : 1 ≤ year
  year_le : year ≤ 9999
  month_pos : 1 ≤ month
  month_le : month ≤ 12
  day_pos : 1 ≤ day
  day_le : day ≤ daysInMonth year month
  hour_lt : hour < 24
  minute_lt : minute < 60
  second_lt : second < 60
  microsecond_lt : microsecond < 1000000
deriving DecidableEq

namespace Datetime

def ordinal (d : Datetime) : Nat :=
  daysBeforeYear d.year + (daysBeforeMonth d.year d.month + (d.day - 1))

def ofDay (d : Datetime) : Nat :=
  ((d.hour * 60 + d.minute) * 60 + d.second) * 1000000 + d.microsecond

def instant (d : Datetime) : Nat :=
  d.ordinal * 86400000000 + d.ofDay

/-- `.ffffff`, or nothing -/
def fraction (microsecond : Nat) : List Char :=
  if microsecond = 0 then [] else '.' :: decimal.numeral 6 microsecond

/-- `isoformat`: `YYYY-MM-DDTHH:MM:SS.ffffff+00:00` -/
def isoformat (d : Datetime) : List Char :=
  decimal.numeral 4 d.year ++ '-' :: (decimal.numeral 2 d.month ++ '-' ::
    (decimal.numeral 2 d.day ++ 'T' :: (decimal.numeral 2 d.hour ++ ':' ::
      (decimal.numeral 2 d.minute ++ ':' :: (decimal.numeral 2 d.second ++
        (fraction d.microsecond ++ "+00:00".toList))))))

end Datetime

theorem offset_lt_iff {start size : Nat → Nat} {x y r s : Nat}
    (hxy : x < y → start x + size x ≤ start y) (hyx : y < x → start y + size y ≤ start x)
    (hr : r < size x) (hs : s < size y) : start x + r < start y + s ↔ x < y ∨ x = y ∧ r < s := by
  rcases Nat.lt_trichotomy x y with hlt | rfl | hlt
  · have := hxy hlt
    constructor
    · intro _
      exact .inl hlt
    · intro _
      omega
  · simp
  · have := hyx hlt
    constructor
    · intro h
      omega
    · rintro (h | ⟨h, -⟩)
      · omega
      · omega

theorem digits_lt_iff {b x y r s : Nat} (hr : r < b) (hs : s < b) :
    x * b + r < y * b + s ↔ x < y ∨ x = y ∧ r < s := by
  have hnext : ∀ {a c : Nat}, a < c → a * b + b ≤ c * b := by
    intro a c hac
    rw [← Nat.succ_mul]
    exact Nat.mul_le_mul_right b hac
  exact @offset_lt_iff (· * b) (fun _ => b) x y r s hnext hnext hr hs

def daysInYear (year : Nat) : Nat :=
  if isLeap year then 366 else 365

theorem daysBeforeYear_succ {year : Nat} (h : 1 ≤ year) :
    daysBeforeYear (year + 1) = daysBeforeYear year + daysInYear year := by
  obtain ⟨n, rfl⟩ : ∃ n, year = n + 1 := ⟨year - 1, by omega⟩
  -- the centuries are among the fourth years, so nothing is cut off below zero
  have hcentury : n / 100 ≤ n / 4 := Nat.div_le_div_left (by decide) (by decide)
  simp only [daysBeforeYear, daysInYear, isLeap, Nat.add_sub_cancel, Nat.succ_div,
    Nat.dvd_iff_mod_eq_zero, decide_eq_true_eq]
  by_cases h4 : (n + 1) % 4 = 0
  · by_cases h100 : (n + 1) % 100 = 0
    · by_cases h400 : (n + 1) % 400 = 0
      · simp [h4, h100, h400]
        omega
      · simp [h4, h100, h400]
        omega
    · have h400 : ¬ (n + 1) % 400 = 0 := by omega
      simp [h4, h100, h400]
      omega
  · have h100 : ¬ (n + 1) % 100 = 0 := by omega
    have h400 : ¬ (n + 1) % 400 = 0 := by omega
    simp [h4, h100, h400]
    omega

variable {x y : Nat}

theorem daysBeforeYear_next (hx : 1 ≤ x) (h : x < y) :
    daysBeforeYear x + daysInYear x ≤ daysBeforeYear y := by
  induction y, h using Nat.le_induction with
  | base => rw [daysBeforeYear_succ hx]
  | succ y hle ih =>
    rw [daysBeforeYear_succ (by omega)]
    omega

theorem daysBeforeMonth_succ {year month : Nat} (h : 1 ≤ month) :
    daysBeforeMonth year (month + 1) = daysBeforeMonth year month + daysInMonth year month := by
  obtain ⟨n, rfl⟩ : ∃ n, month = n + 1 := ⟨month - 1, by omega⟩
  rfl

theorem daysBeforeMonth_next (year : Nat) (hx : 1 ≤ x) (h : x < y) :
    daysBeforeMonth year x + daysInMonth year x ≤ daysBeforeMonth year y := by
  induction y, h using Nat.le_induction with
  | base => rw [daysBeforeMonth_succ hx]
  | succ y hle ih =>
    rw [daysBeforeMonth_succ (by omega)]
    omega

theorem daysBeforeMonth_year (year : Nat) : daysBeforeMonth year 13 = daysInYear year := by
  cases h : isLeap year with
  | true => simp [daysBeforeMonth, daysInMonth, daysInYear, h]
  | false => simp [daysBeforeMonth, daysInMonth, daysInYear, h]

namespace Datetime

variable (d e : Datetime)

theorem dayOfMonth_lt : d.day - 1 < daysInMonth d.year d.month := by
  have hpos := d.day_pos
  have hle := d.day_le
  omega

theorem dayOfYear_lt : daysBeforeMonth d.year d.month + (d.day - 1) < daysInYear d.year := by
  have hday := d.dayOfMonth_lt
  have hmonth := d.month_le
  have hrest := daysBeforeMonth_next d.year d.month_pos (Nat.lt_succ_of_le hmonth)
  rw [daysBeforeMonth_year] at hrest
  omega

theorem day_lt : d.day < 10 ^ 2 := by
  have hle : daysInMonth d.year d.month ≤ 31 := by
    unfold daysInMonth
    split
    · split <;> decide
    · split <;> decide
  exact Nat.lt_of_le_of_lt (d.day_le.trans hle) (by decide)

theorem ofDay_lt : d.ofDay < 86400000000 := by
  have hhour := d.hour_lt
  have hminute := d.minute_lt
  have hsecond := d.second_lt
  have hmicrosecond := d.microsecond_lt
  unfold ofDay
  omega

def DateLt : Prop :=
  d.year < e.year ∨ d.year = e.year ∧ (d.month < e.month ∨ d.month = e.month ∧ d.day < e.day)

def SameDate : Prop :=
  d.year = e.year ∧ d.month = e.month ∧ d.day = e.day

def TimeLt : Prop :=
  d.hour < e.hour ∨ d.hour = e.hour ∧ (d.minute < e.minute ∨ d.minute = e.minute ∧
    (d.second < e.second ∨ d.second = e.second ∧ d.microsecond < e.microsecond))

theorem ordinal_lt_iff : d.ordinal < e.ordinal ↔ d.DateLt e := by
  unfold ordinal DateLt
  rw [offset_lt_iff (daysBeforeYear_next d.year_pos) (daysBeforeYear_next e.year_pos)
    d.dayOfYear_lt e.dayOfYear_lt]
  apply or_congr Iff.rfl
  apply and_congr_right
  intro hyear
  have hday := e.dayOfMonth_lt
  rw [← hyear] at hday ⊢
  rw [offset_lt_iff (daysBeforeMonth_next d.year d.month_pos)
    (daysBeforeMonth_next d.year e.month_pos) d.dayOfMonth_lt hday]
  have hd := d.day_pos
  have he := e.day_pos
  have hdays : d.day - 1 < e.day - 1 ↔ d.day < e.day := by omega
  rw [hdays]

theorem ofDay_lt_iff : d.ofDay < e.ofDay ↔ d.TimeLt e := by
  unfold ofDay TimeLt
  rw [digits_lt_iff d.microsecond_lt e.microsecond_lt, digits_lt_iff d.second_lt e.second_lt,
    digits_lt_iff d.minute_lt e.minute_lt]
  have hh : d.hour * 60 + d.minute = e.hour * 60 + e.minute ↔
      d.hour = e.hour ∧ d.minute = e.minute := by
    have := d.minute_lt
    have := e.minute_lt
    omega
  have hm : (d.hour * 60 + d.minute) * 60 + d.second = (e.hour * 60 + e.minute) * 60 + e.second ↔
      d.hour = e.hour ∧ d.minute = e.minute ∧ d.second = e.second := by
    have := d.minute_lt
    have := e.minute_lt
    have := d.second_lt
    have := e.second_lt
    omega
  rw [hh, hm]
  simp only [and_or_left, or_assoc, and_assoc]

theorem ordinal_eq_iff : d.ordinal = e.ordinal ↔ d.SameDate e := by
  have hde := ordinal_lt_iff d e
  have hed := ordinal_lt_iff e d
  unfold DateLt at hde hed
  constructor
  · intro heq
    rw [heq] at hde hed
    unfold SameDate
    omega
  · rintro ⟨hyear, hmonth, hday⟩
    rw [ordinal, ordinal, hyear, hmonth, hday]

theorem instant_lt_iff : d.instant < e.instant ↔ d.DateLt e ∨ d.SameDate e ∧ d.TimeLt e := by
  unfold instant
  rw [digits_lt_iff d.ofDay_lt e.ofDay_lt, ordinal_lt_iff, ordinal_eq_iff, ofDay_lt_iff]

theorem textLt_fraction {a b : Nat} (ha : a < 1000000) (hb : b < 1000000) (s : List Char) :
    textLt (fraction a ++ '+' :: s) (fraction b ++ '+' :: s) = true ↔ a < b := by
  unfold fraction
  split
  · rename_i hzero
    split
    · simp [textLt_irrefl, *]
    · rename_i hpos
      simp only [List.nil_append, List.cons_append, textLt_cons]
      constructor
      · intro _
        omega
      · intro _
        exact .inl (by decide)
  · split
    · rename_i hzero
      simp only [List.nil_append, List.cons_append, textLt_cons]
      constructor
      · rintro (h | ⟨h, -⟩)
        · exact absurd h (by decide)
        · exact absurd h (by decide)
      · intro _
        omega
    · simp only [List.cons_append, textLt_cons, lt_irrefl, false_or, true_and]
      rw [Digits.textLt_numeral_append ha hb]
      simp [textLt_irrefl]

theorem textLt_isoformat : textLt d.isoformat e.isoformat = true ↔ d.instant < e.instant := by
  have hmonth : ∀ x : Datetime, x.month < decimal.base ^ 2 := fun x =>
    Nat.lt_of_le_of_lt x.month_le (by decide)
  have hday : ∀ x : Datetime, x.day < decimal.base ^ 2 := fun x => x.day_lt
  have hyear : ∀ x : Datetime, x.year < decimal.base ^ 4 := fun x =>
    Nat.lt_of_le_of_lt x.year_le (by decide)
  have hhour : ∀ x : Datetime, x.hour < decimal.base ^ 2 := fun x =>
    Nat.lt_trans x.hour_lt (by decide)
  have hminute : ∀ x : Datetime, x.minute < decimal.base ^ 2 := fun x =>
    Nat.lt_trans x.minute_lt (by decide)
  have hsecond : ∀ x : Datetime, x.second < decimal.base ^ 2 := fun x =>
    Nat.lt_trans x.second_lt (by decide)
  have hfraction : textLt (fraction d.microsecond ++ "+00:00".toList)
      (fraction e.microsecond ++ "+00:00".toList) = true ↔ d.microsecond < e.microsecond :=
    textLt_fraction d.microsecond_lt e.microsecond_lt "00:00".toList
  rw [instant_lt_iff, isoformat, isoformat,
    Digits.textLt_numeral_append (hyear d) (hyear e), textLt_same,
    Digits.textLt_numeral_append (hmonth d) (hmonth e), textLt_same,
    Digits.textLt_numeral_append (hday d) (hday e), textLt_same,
    Digits.textLt_numeral_append (hhour d) (hhour e), textLt_same,
    Digits.textLt_numeral_append (hminute d) (hminute e), textLt_same,
    Digits.textLt_numeral_append (hsecond d) (hsecond e), hfraction]
  unfold DateLt SameDate TimeLt
  simp only [and_or_left, or_assoc, and_assoc]

end Datetime

def yearOf (ordinal : Nat) : Nat :=
  Nat.findGreatest (fun year => daysBeforeYear year ≤ ordinal) 9999

def monthOf (year dayOfYear : Nat) : Nat :=
  Nat.findGreatest (fun month => daysBeforeMonth year month ≤ dayOfYear) 12

namespace Datetime

def textAt (instant : Nat) : List Char :=
  let ordinal := instant / 86400000000
  let ofDay := instant % 86400000000
  let year := yearOf ordinal
  let dayOfYear := ordinal - daysBeforeYear year
  let month := monthOf year dayOfYear
  decimal.numeral 4 year ++ '-' :: (decimal.numeral 2 month ++ '-' ::
    (decimal.numeral 2 (dayOfYear - daysBeforeMonth year month + 1) ++ 'T' ::
      (decimal.numeral 2 (ofDay / 3600000000) ++ ':' ::
        (decimal.numeral 2 (ofDay / 60000000 % 60) ++ ':' ::
          (decimal.numeral 2 (ofDay / 1000000 % 60) ++
            (fraction (ofDay % 1000000) ++ "+00:00".toList))))))

theorem yearOf_ordinal (d : Datetime) : yearOf d.ordinal = d.year := by
  rw [yearOf, Nat.findGreatest_eq_iff]
  refine ⟨d.year_le, ?_, ?_⟩
  · intro _
    unfold ordinal
    omega
  · intro year hyear _ hle
    have hnext := daysBeforeYear_next d.year_pos hyear
    have hday := d.dayOfYear_lt
    unfold ordinal at hle
    omega

theorem monthOf_dayOfYear (d : Datetime) :
    monthOf d.year (daysBeforeMonth d.year d.month + (d.day - 1)) = d.month := by
  rw [monthOf, Nat.findGreatest_eq_iff]
  refine ⟨d.month_le, ?_, ?_⟩
  · intro _
    omega
  · intro month hmonth _ hle
    have hnext := daysBeforeMonth_next d.year d.month_pos hmonth
    have hday := d.dayOfMonth_lt
    omega

theorem textAt_instant (d : Datetime) : textAt d.instant = d.isoformat := by
  have hofDay := d.ofDay_lt
  have hordinal : d.instant / 86400000000 = d.ordinal := by
    unfold instant
    omega
  have htime : d.instant % 86400000000 = d.ofDay := by
    unfold instant
    omega
  have hdayOfYear : d.ordinal - daysBeforeYear d.year =
      daysBeforeMonth d.year d.month + (d.day - 1) := by
    unfold ordinal
    omega
  have hday : daysBeforeMonth d.year d.month + (d.day - 1) - daysBeforeMonth d.year d.month + 1 =
      d.day := by
    have := d.day_pos
    omega
  have hminute := d.minute_lt
  have hsecond := d.second_lt
  have hmicrosecond := d.microsecond_lt
  have hh : d.ofDay / 3600000000 = d.hour := by
    unfold ofDay
    omega
  have hm : d.ofDay / 60000000 % 60 = d.minute := by
    unfold ofDay
    omega
  have hs : d.ofDay / 1000000 % 60 = d.second := by
    unfold ofDay
    omega
  have hu : d.ofDay % 1000000 = d.microsecond := by
    unfold ofDay
    omega
  simp only [textAt, hordinal, htime, yearOf_ordinal, hdayOfYear, monthOf_dayOfYear, hday, hh, hm,
    hs, hu]
  rfl

def readNumber (w : Nat) (s : List Char) : Nat × List Char :=
  (decimalValue (s.take w), s.drop (w + 1))

theorem readNumber_numeral {w n : Nat} (h : n < 10 ^ w) (c : Char) (s : List Char) :
    readNumber w (decimal.numeral w n ++ c :: s) = (n, s) := by
  have htake : (decimal.numeral w n ++ c :: s).take w = decimal.numeral w n :=
    List.take_left' (Digits.length_numeral w n)
  have hdrop : (decimal.numeral w n ++ c :: s).drop (w + 1) = s := by
    rw [← List.drop_drop, List.drop_left' (Digits.length_numeral w n)]
    rfl
  rw [readNumber, htake, hdrop, decimalValue_numeral h]

def readFraction : List Char → Nat
  | '.' :: s => decimalValue (s.take 6)
  | _ => 0

def readInstant (s : List Char) : Nat :=
  let (year, s) := readNumber 4 s
  let (month, s) := readNumber 2 s
  let (day, s) := readNumber 2 s
  let (hour, s) := readNumber 2 s
  let (minute, s) := readNumber 2 s
  let second := decimalValue (s.take 2)
  let microsecond := readFraction (s.drop 2)
  (daysBeforeYear year + (daysBeforeMonth year month + (day - 1))) * 86400000000 +
    (((hour * 60 + minute) * 60 + second) * 1000000 + microsecond)

theorem readFraction_fraction {n : Nat} (h : n < 1000000) :
    readFraction (fraction n ++ "+00:00".toList) = n := by
  unfold fraction
  split
  · rename_i hzero
    rw [hzero]
    rfl
  · rw [List.cons_append, readFraction, List.take_left' (Digits.length_numeral 6 n),
      decimalValue_numeral h]

theorem readInstant_isoformat (d : Datetime) : readInstant d.isoformat = d.instant := by
  have hmonth : d.month < 10 ^ 2 := Nat.lt_of_le_of_lt d.month_le (by decide)
  have hday : d.day < 10 ^ 2 := d.day_lt
  have hyear : d.year < 10 ^ 4 := Nat.lt_of_le_of_lt d.year_le (by decide)
  have hhour : d.hour < 10 ^ 2 := Nat.lt_trans d.hour_lt (by decide)
  have hminute : d.minute < 10 ^ 2 := Nat.lt_trans d.minute_lt (by decide)
  have hsecond : d.second < 10 ^ 2 := Nat.lt_trans d.second_lt (by decide)
  simp only [readInstant, isoformat, readNumber_numeral hyear, readNumber_numeral hmonth,
    readNumber_numeral hday, readNumber_numeral hhour, readNumber_numeral hminute,
    List.take_left' (Digits.length_numeral 2 d.second),
    List.drop_left' (Digits.length_numeral 2 d.second), decimalValue_numeral hsecond,
    readFraction_fraction d.microsecond_lt]
  rfl

end Datetime

def hyphenate : List Nat → List Char → List Char
  | [], s => s
  | k :: ks, s => s.take k ++ '-' :: hyphenate ks (s.drop k)

/-- `UUID`, compared by its number -/
structure UUID where
  int : Nat
  int_lt : int < 2 ^ 128

def uuidText (int : Nat) : String :=
  String.ofList (hyphenate [8, 4, 4, 4] (hexadecimal.numeral 32 int))

def UUID.str (id : UUID) : String := uuidText id.int

/-- `UUID(text)` of a text with hyphens; `none` is the ValueError -/
def readUuid (text : String) : Option Nat :=
  let hex := text.toList.filter (· ≠ '-')
  if hex.length = 32 ∧ hex.all (fun c => c.isDigit || 'a' ≤ c && c ≤ 'f') then
    some (hexadecimalValue hex)
  else none

theorem readUuid_lt {text : String} {id : Nat} (h : readUuid text = some id) : id < 2 ^ 128 := by
  simp only [readUuid, Option.ite_none_right_eq_some, Option.some.injEq] at h
  obtain ⟨⟨hlength, hdigits⟩, rfl⟩ := h
  have hlt : hexadecimalValue (text.toList.filter (· ≠ '-')) < 16 ^ _ := valueOf_lt (by
    intro c hc
    have hc := List.all_eq_true.mp hdigits c hc
    simp only [Char.isDigit, Bool.or_eq_true, Bool.and_eq_true, decide_eq_true_eq, ge_iff_le,
      UInt32.le_iff_toNat_le, Char.le_def] at hc
    have hval : c.val.toNat = c.toNat := rfl
    have h0 : '0'.val.toNat = 48 := rfl
    have h9 : '9'.val.toNat = 57 := rfl
    have ha : 'a'.val.toNat = 97 := rfl
    have hf : 'f'.val.toNat = 102 := rfl
    rw [hval] at hc
    split <;> omega)
  rw [hlength] at hlt
  exact Nat.lt_of_lt_of_eq hlt (by decide)

theorem filter_hyphenate (ks : List Nat) {s : List Char} (h : ∀ c ∈ s, c ≠ '-') :
    (hyphenate ks s).filter (· ≠ '-') = s := by
  have hkeep : ∀ t : List Char, (∀ c ∈ t, c ∈ s) → t.filter (· ≠ '-') = t := fun t ht =>
    List.filter_eq_self.mpr fun c hc => decide_eq_true (h c (ht c hc))
  induction ks generalizing s with
  | nil => exact hkeep s fun _ hc => hc
  | cons k ks ih =>
    have hdrop : ∀ c ∈ s.drop k, c ≠ '-' := fun c hc => h c (List.mem_of_mem_drop hc)
    rw [hyphenate, List.filter_append, hkeep _ fun _ hc => List.mem_of_mem_take hc,
      List.filter_cons_of_neg (by decide), ih hdrop, List.take_append_drop]
    exact fun t ht => hkeep t fun c hc => List.mem_of_mem_drop (ht c hc)

theorem UUID.hexDigit (id : UUID) {c : Char} (h : c ∈ hexadecimal.numeral 32 id.int) :
    ∃ i < 16, c = hexadecimal.char i :=
  Digits.mem_numeral (Nat.lt_of_lt_of_eq id.int_lt (by decide)) h

theorem UUID.readUuid_str (id : UUID) : readUuid id.str = some id.int := by
  have hdigit : ∀ i < 16, hexadecimal.char i ≠ '-' ∧ ((hexadecimal.char i).isDigit ||
      'a' ≤ hexadecimal.char i && hexadecimal.char i ≤ 'f') = true := by decide
  have hfilter : id.str.toList.filter (· ≠ '-') = hexadecimal.numeral 32 id.int := by
    rw [UUID.str, uuidText, String.toList_ofList]
    refine filter_hyphenate _ fun c hc => ?_
    obtain ⟨i, hi, rfl⟩ := id.hexDigit hc
    exact (hdigit i hi).1
  rw [readUuid, hfilter, if_pos, hexadecimalValue_numeral (Nat.lt_of_lt_of_eq id.int_lt (by decide))]
  refine ⟨Digits.length_numeral 32 _, List.all_eq_true.mpr fun c hc => ?_⟩
  obtain ⟨i, hi, rfl⟩ := id.hexDigit hc
  exact (hdigit i hi).2

theorem textLt_hyphenate (ks : List Nat) {s t : List Char} (h : s.length = t.length) :
    textLt (hyphenate ks s) (hyphenate ks t) = textLt s t := by
  induction ks generalizing s t with
  | nil => rfl
  | cons k ks ih =>
    have htake : (s.take k).length = (t.take k).length := by simp [h]
    have hdrop : (s.drop k).length = (t.drop k).length := by simp [h]
    have hst := textLt_append (s := s.drop k) (t := t.drop k) htake
    rw [List.take_append_drop, List.take_append_drop] at hst
    rw [Bool.eq_iff_iff, hyphenate, hyphenate, textLt_append htake, textLt_same,
      ih hdrop, hst]

theorem UUID.textLt_str (a b : UUID) : textLt a.str.toList b.str.toList = true ↔ a.int < b.int := by
  have hbound : ∀ x : UUID, x.int < hexadecimal.base ^ 32 := fun x =>
    Nat.lt_of_lt_of_eq x.int_lt (by decide)
  rw [UUID.str, UUID.str, uuidText, uuidText, String.toList_ofList, String.toList_ofList,
    textLt_hyphenate _ (by simp), Digits.textLt_numeral (hbound a) (hbound b)]

def newYear : Datetime where
  year := 2024
  month := 1
  day := 1
  hour := 0
  minute := 0
  second := 0
  microsecond := 0
  year_pos := by decide
  year_le := by decide
  month_pos := by decide
  month_le := by decide
  day_pos := by decide
  day_le := by decide
  hour_lt := by decide
  minute_lt := by decide
  second_lt := by decide
  microsecond_lt := by decide

example : Datetime.isoformat newYear = "2024-01-01T00:00:00+00:00".toList := by decide

end Tamoss
