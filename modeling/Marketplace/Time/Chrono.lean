import Marketplace.Time.Rfc3339
import Marketplace.Auth.Text

/-!
# Dates as text

A date of the calendar (`Marketplace.Chrono.NaiveDate`), how it is written in a format and how it is
read in one. A numeral is read as far as there are digits, up to the width of its field, so that a
year of four digits may be written with fewer: in a format whose year is followed by nothing else,
the last two digits of a year are the year of an emperor (`Marketplace.Chrono.parseFromStr_short`).

A year that is given by its last two digits is one of the hundred years from a pivot on, which is a
parameter here.
-/

namespace Marketplace.Chrono

open Rfc3339

/-! ### Dates -/

/-- A year, a month and a day that the calendar has. The year is one that a date can have. -/
structure IsDate (year : ℤ) (month day : ℕ) : Prop where
  from_year : -262143 ≤ year
  to_year : year ≤ 262142
  one_le_month : 1 ≤ month
  month_le : month ≤ 12
  one_le_day : 1 ≤ day
  day_le : daysBeforeMonth (year % 400).toNat month + day ≤
    daysBeforeMonth (year % 400).toNat (month + 1)

instance (year : ℤ) (month day : ℕ) : Decidable (IsDate year month day) :=
  decidable_of_iff
    (-262143 ≤ year ∧ year ≤ 262142 ∧ 1 ≤ month ∧ month ≤ 12 ∧ 1 ≤ day ∧
      daysBeforeMonth (year % 400).toNat month + day ≤
        daysBeforeMonth (year % 400).toNat (month + 1))
    ⟨fun ⟨h₁, h₂, h₃, h₄, h₅, h₆⟩ => ⟨h₁, h₂, h₃, h₄, h₅, h₆⟩,
      fun ⟨h₁, h₂, h₃, h₄, h₅, h₆⟩ => ⟨h₁, h₂, h₃, h₄, h₅, h₆⟩⟩

/-- **A date.** -/
@[ext]
structure NaiveDate where
  year : ℤ
  month : ℕ
  day : ℕ
  isDate : IsDate year month day
  deriving DecidableEq

/-- `NaiveDate::from_ymd_opt`. -/
def fromYmd (year : ℤ) (month day : ℕ) : Option NaiveDate :=
  if h : IsDate year month day then some ⟨year, month, day, h⟩ else none

theorem fromYmd_of_isDate {year : ℤ} {month day : ℕ} (h : IsDate year month day) :
    fromYmd year month day = some ⟨year, month, day, h⟩ := dif_pos h

/-! ### Formats -/

/-- What a format is made of. -/
inductive Item
  /-- `%Y` -/
  | year
  /-- `%y` -/
  | yearMod100
  /-- `%m` -/
  | month
  /-- `%d` -/
  | day
  /-- `%b` -/
  | monthName
  | literal (c : Char)
  deriving DecidableEq

/-- `StrftimeItems`, of a format with no other specifiers. -/
def items : List Char → Option (List Item)
  | [] => some []
  | '%' :: 'Y' :: format => (items format).map (.year :: ·)
  | '%' :: 'y' :: format => (items format).map (.yearMod100 :: ·)
  | '%' :: 'm' :: format => (items format).map (.month :: ·)
  | '%' :: 'd' :: format => (items format).map (.day :: ·)
  | '%' :: 'b' :: format => (items format).map (.monthName :: ·)
  | '%' :: _ => none
  | c :: format => (items format).map (.literal c :: ·)

/-- The names of the months. -/
def monthNames : List String :=
  ["Jan", "Feb", "Mar", "Apr", "May", "Jun", "Jul", "Aug", "Sep", "Oct", "Nov", "Dec"]

/-- A part of a date, as it is written. -/
def Item.write (d : NaiveDate) : Item → Text
  | year => yearText d.year
  | yearMod100 => pad 2 (d.year % 100).toNat
  | month => pad 2 d.month
  | day => pad 2 d.day
  | monthName => ((monthNames[d.month - 1]?).getD "").toList
  | literal c => [c]

/-- `NaiveDate::format`. -/
def NaiveDate.format (d : NaiveDate) (format : String) : Text :=
  ((items format.toList).getD []).flatMap (Item.write d)

/-- `NaiveDate::to_string`. -/
def NaiveDate.text (d : NaiveDate) : Text := d.format "%Y-%m-%d"

/-! ### Reading -/

/-- What has been read of a date. -/
structure Parsed where
  year : Option ℤ := none
  yearMod100 : Option ℕ := none
  month : Option ℕ := none
  day : Option ℕ := none

/-- Reads digits, as many as there are up to some number. -/
def scanDigits : ℕ → ℕ → Text → ℕ × Text
  | n + 1, acc, c :: s =>
    if c.isDigit then scanDigits n (10 * acc + (c.toNat - 48)) s else (acc, c :: s)
  | _, acc, s => (acc, s)

/-- `scan::number`: one digit at least, and at most some. -/
def scanNumber (width : ℕ) : Text → Option (ℕ × Text)
  | c :: s => if c.isDigit then some (scanDigits width 0 (c :: s)) else none
  | [] => none

/-- A year, which may be signed; with a sign, it has any number of digits. -/
def scanYear : Text → Option (ℤ × Text)
  | '-' :: s => (scanNumber s.length s).map fun p => (-(p.1 : ℤ), p.2)
  | '+' :: s => (scanNumber s.length s).map fun p => ((p.1 : ℤ), p.2)
  | s => (scanNumber 4 s).map fun p => ((p.1 : ℤ), p.2)

/-- `scan::short_month0`, counted from one. -/
def scanMonthName (s : Text) : Option (ℕ × Text) :=
  (monthNames.findIdx? fun name => name.toList.map Char.toLower = (s.take 3).map Char.toLower).map
    fun i => (i + 1, s.drop 3)

/-- `set_if_consistent`. -/
def setIfConsistent {α : Type} [DecidableEq α] (old : Option α) (new : α) : Option (Option α) :=
  if old.all fun value => value = new then some (some new) else none

namespace Parsed

/-- `Parsed::set_year`. -/
def setYear (p : Parsed) (value : ℤ) : Option Parsed :=
  (setIfConsistent p.year value).map fun year => { p with year := year }

/-- `Parsed::set_year_mod_100`. -/
def setYearMod100 (p : Parsed) (value : ℕ) : Option Parsed :=
  (setIfConsistent p.yearMod100 value).map fun year => { p with yearMod100 := year }

/-- `Parsed::set_month`. -/
def setMonth (p : Parsed) (value : ℕ) : Option Parsed :=
  if 1 ≤ value ∧ value ≤ 12 then
    (setIfConsistent p.month value).map fun month => { p with month := month }
  else none

/-- `Parsed::set_day`. -/
def setDay (p : Parsed) (value : ℕ) : Option Parsed :=
  if 1 ≤ value ∧ value ≤ 31 then
    (setIfConsistent p.day value).map fun day => { p with day := day }
  else none

/-- The year that has been read; of one that is given by its last two digits, the one from the
pivot on. -/
def resolveYear (pivot : ℕ) (p : Parsed) : Option ℤ :=
  match p.year, p.yearMod100 with
  | year, none => year
  | some year, some r => if 0 ≤ year ∧ year % 100 = r then some year else none
  | none, some r => some (if r < pivot then 2000 + r else 1900 + r)

/-- `Parsed::to_naive_date`, of a year, a month and a day. -/
def toNaiveDate (pivot : ℕ) (p : Parsed) : Option NaiveDate := do
  let year ← p.resolveYear pivot
  let month ← p.month
  let day ← p.day
  fromYmd year month day

end Parsed

/-- Reads a part of a date. -/
def Item.scan (p : Parsed) (s : Text) : Item → Option (Parsed × Text)
  | year => do
    let (value, s) ← scanYear (s.dropWhile isWhitespace)
    return (← p.setYear value, s)
  | yearMod100 => do
    let (value, s) ← scanNumber 2 (s.dropWhile isWhitespace)
    return (← p.setYearMod100 value, s)
  | month => do
    let (value, s) ← scanNumber 2 (s.dropWhile isWhitespace)
    return (← p.setMonth value, s)
  | day => do
    let (value, s) ← scanNumber 2 (s.dropWhile isWhitespace)
    return (← p.setDay value, s)
  | monthName => do
    let (value, s) ← scanMonthName s
    return (← p.setMonth value, s)
  | literal c => (expect (· = c) s).map fun s => (p, s)

/-- `format::parse`: every part is read, and nothing is left. -/
def parse : List Item → Parsed → Text → Option Parsed
  | [], p, s => if s.isEmpty then some p else none
  | item :: rest, p, s => (item.scan p s).bind fun r => parse rest r.1 r.2

/-- **`NaiveDate::parse_from_str`.** -/
def parseFromStr (pivot : ℕ) (format : String) (s : Text) : Option NaiveDate := do
  let items ← items format.toList
  let p ← parse items {} s
  p.toNaiveDate pivot

example : (parseFromStr 69 "%m/%d/%y" "2/29/68".toList).map NaiveDate.text =
    some "2068-02-29".toList := by
  decide +kernel

/-! ### Reading what was written -/

/-- A digit is no sign. -/
theorem ne_sign_of_isDigit {c : Char} (h : c.isDigit = true) : c ≠ '-' ∧ c ≠ '+' := by
  constructor
  · rintro rfl
    exact absurd h (by decide)
  · rintro rfl
    exact absurd h (by decide)

theorem pad_succ_append (n v : ℕ) (s : Text) :
    pad (n + 1) v ++ s = Rfc3339.digit (v / 10 ^ n) :: (pad n v ++ s) := rfl

/-- A numeral in two parts. -/
theorem pad_add (m n v : ℕ) : pad (m + n) v = pad m (v / 10 ^ n) ++ pad n v := by
  induction m with
  | zero => rw [Nat.zero_add, pad, List.nil_append]
  | succ m ih =>
    rw [Nat.succ_add, pad, pad, ih, Nat.div_div_eq_div_mul, ← pow_add, Nat.add_comm m n,
      List.cons_append]

/-- Nothing is trimmed from a numeral. -/
theorem dropWhile_pad (n v : ℕ) (s : Text) :
    (pad (n + 1) v ++ s).dropWhile isWhitespace = pad (n + 1) v ++ s := by
  have hblank := isWhitespace_of_isDigit (digit_spec (v / 10 ^ n)).1
  rw [pad_succ_append, List.dropWhile_cons_of_neg (by rw [hblank]; exact Bool.false_ne_true)]

/-- **Digits are read as they were written.** -/
theorem scanDigits_pad (k n v acc : ℕ) (s : Text) :
    scanDigits (k + n) acc (pad n v ++ s) = scanDigits k (acc * 10 ^ n + v % 10 ^ n) s := by
  induction n generalizing acc with
  | zero => simp [pad, Nat.mod_one]
  | succ n ih =>
    obtain ⟨hdigit, hvalue⟩ := digit_spec (v / 10 ^ n)
    rw [pad_succ_append, ← Nat.add_assoc, scanDigits, if_pos hdigit, ih, hvalue, Nat.mod_pow_succ]
    congr 1
    ring

/-- Where there is no digit, no more are read. -/
theorem scanDigits_of_not_isDigit (k acc : ℕ) {c : Char} (h : c.isDigit = false) (s : Text) :
    scanDigits k acc (c :: s) = (acc, c :: s) := by
  cases k with
  | zero => rfl
  | succ k => rw [scanDigits, h, if_neg Bool.false_ne_true]

theorem scanNumber_pad (k n v : ℕ) (s : Text) :
    scanNumber (k + (n + 1)) (pad (n + 1) v ++ s) =
      some (scanDigits k (v % 10 ^ (n + 1)) s) := by
  have h := scanDigits_pad k (n + 1) v 0 s
  rw [pad_succ_append] at h ⊢
  rw [scanNumber, if_pos (digit_spec _).1, h, Nat.zero_mul, Nat.zero_add]

/-- A numeral that is as wide as it may be. -/
theorem scanNumber_full {n v : ℕ} (hv : v < 10 ^ (n + 1)) (s : Text) :
    scanNumber (n + 1) (pad (n + 1) v ++ s) = some (v, s) := by
  have h := scanNumber_pad 0 n v s
  rwa [Nat.zero_add, Nat.mod_eq_of_lt hv] at h

/-- A numeral that ends before something else. -/
theorem scanNumber_short {k n v : ℕ} (hv : v < 10 ^ (n + 1)) {c : Char} (hc : c.isDigit = false)
    (s : Text) : scanNumber (k + (n + 1)) (pad (n + 1) v ++ c :: s) = some (v, c :: s) := by
  rw [scanNumber_pad, scanDigits_of_not_isDigit _ _ hc, Nat.mod_eq_of_lt hv]

/-- A numeral without a sign is read as a year of four digits at most. -/
theorem scanYear_pad (n v : ℕ) (s : Text) :
    scanYear (pad (n + 1) v ++ s) =
      (scanNumber 4 (pad (n + 1) v ++ s)).map fun p => ((p.1 : ℤ), p.2) := by
  obtain ⟨hminus, hplus⟩ := ne_sign_of_isDigit (digit_spec (v / 10 ^ n)).1
  rw [pad_succ_append, scanYear]
  · exact fun _ h => hminus (List.cons.inj h).1
  · exact fun _ h => hplus (List.cons.inj h).1

/-- The part of a date that an item stands for has been read. -/
def Item.note (d : NaiveDate) (p : Parsed) : Item → Parsed
  | year => { p with year := some d.year }
  | yearMod100 => { p with yearMod100 := some (d.year % 100).toNat }
  | month | monthName => { p with month := some d.month }
  | day => { p with day := some d.day }
  | literal _ => p

/-- **What has been read is of a date.** -/
structure Parsed.Agrees (d : NaiveDate) (p : Parsed) : Prop where
  year : ∀ year ∈ p.year, year = d.year
  yearMod100 : ∀ r ∈ p.yearMod100, r = (d.year % 100).toNat
  month : ∀ month ∈ p.month, month = d.month
  day : ∀ day ∈ p.day, day = d.day

/-- The year has four digits. -/
def NaiveDate.FourDigits (d : NaiveDate) : Prop := 0 ≤ d.year ∧ d.year ≤ 9999

variable {d : NaiveDate} {p : Parsed} {s : Text}

theorem agrees_empty (d : NaiveDate) : ({} : Parsed).Agrees d := by
  constructor <;> exact fun _ h => nomatch h

theorem Parsed.Agrees.note (h : p.Agrees d) (item : Item) : (item.note d p).Agrees d := by
  obtain ⟨hyear, hmod, hmonth, hday⟩ := h
  cases item with
  | year => exact ⟨fun _ hy => (Option.some.inj hy).symm, hmod, hmonth, hday⟩
  | yearMod100 => exact ⟨hyear, fun _ hr => (Option.some.inj hr).symm, hmonth, hday⟩
  | month | monthName => exact ⟨hyear, hmod, fun _ hm => (Option.some.inj hm).symm, hday⟩
  | day => exact ⟨hyear, hmod, hmonth, fun _ hd => (Option.some.inj hd).symm⟩
  | literal c => exact ⟨hyear, hmod, hmonth, hday⟩

/-- A value is set where nothing else is. -/
theorem setIfConsistent_of_agrees {α : Type} [DecidableEq α] {old : Option α} {new : α}
    (h : ∀ value ∈ old, value = new) : setIfConsistent old new = some (some new) := by
  refine if_pos ?_
  rcases old with _ | value
  · rfl
  · simpa using h value rfl

theorem NaiveDate.month_lt (d : NaiveDate) : d.month < 10 ^ 2 := by
  have := d.isDate.month_le
  omega

/-- No month is longer than thirty-one days. -/
theorem NaiveDate.day_le (d : NaiveDate) : d.day ≤ 31 := by
  have hday := d.isDate.day_le
  have hlength := daysBeforeMonth_succ_le (d.year % 400).toNat d.isDate.month_le
  omega

/-- The name of a month is three letters, which are those of no other. -/
theorem scanMonthName_write (d : NaiveDate) (s : Text) :
    scanMonthName (Item.monthName.write d ++ s) = some (d.month, s) := by
  have hall : ∀ m < 12, ∀ name, monthNames[m]? = some name → name.toList.length = 3 ∧
      monthNames.findIdx? (fun other => other.toList.map Char.toLower =
        name.toList.map Char.toLower) = some m := by decide +kernel
  have hone := d.isDate.one_le_month
  have htwelve := d.isDate.month_le
  have hlt : d.month - 1 < monthNames.length := by
    change d.month - 1 < 12
    omega
  obtain ⟨hlength, hfound⟩ := hall (d.month - 1) hlt _ (List.getElem?_eq_getElem hlt)
  have hwrite : Item.monthName.write d = (monthNames[d.month - 1]).toList := by
    rw [Item.write, List.getElem?_eq_getElem hlt, Option.getD_some]
  rw [hwrite, scanMonthName, ← hlength, List.take_left, List.drop_left, hfound, Option.map_some,
    Nat.sub_add_cancel hone]

/-- **Every part of a date is read as it was written**, whatever comes after it. -/
theorem Item.scan_write (hfour : d.FourDigits) (hp : p.Agrees d) (item : Item) :
    item.scan p (item.write d ++ s) = some (item.note d p, s) := by
  cases item with
  | year =>
    obtain ⟨y, hy⟩ := Int.eq_ofNat_of_zero_le hfour.1
    have hlt : y < 10 ^ 4 := by
      have := hfour.2
      omega
    have hrange : 0 ≤ d.year ∧ d.year ≤ 9999 := hfour
    rw [write, yearText, if_pos hrange, hy, Int.toNat_natCast]
    simp [scan, note, dropWhile_pad, scanYear_pad, scanNumber_full (n := 3) hlt, Parsed.setYear,
      ← hy, setIfConsistent_of_agrees hp.year]
  | yearMod100 =>
    have hlt : (d.year % 100).toNat < 10 ^ 2 := by omega
    simp [scan, write, note, dropWhile_pad, scanNumber_full (n := 1) hlt, Parsed.setYearMod100,
      setIfConsistent_of_agrees hp.yearMod100]
  | month =>
    simp [scan, write, note, dropWhile_pad, scanNumber_full (n := 1) d.month_lt, Parsed.setMonth,
      d.isDate.one_le_month, d.isDate.month_le, setIfConsistent_of_agrees hp.month]
  | day =>
    have hlt : d.day < 10 ^ 2 := by
      have := d.day_le
      omega
    simp [scan, write, note, dropWhile_pad, scanNumber_full (n := 1) hlt, Parsed.setDay,
      d.isDate.one_le_day, d.day_le, setIfConsistent_of_agrees hp.day]
  | monthName =>
    simp [scan, note, scanMonthName_write, Parsed.setMonth, d.isDate.one_le_month,
      d.isDate.month_le, setIfConsistent_of_agrees hp.month]
  | literal c => simp [scan, write, note, expect]

theorem Parsed.Agrees.foldl (hp : p.Agrees d) (is : List Item) :
    (is.foldl (Item.note d) p).Agrees d := by
  induction is generalizing p with
  | nil => exact hp
  | cons item is ih => exact ih (hp.note item)

/-- The parts of a date are read as they were written, and then what comes after them. -/
theorem parse_append_write (hfour : d.FourDigits) (hp : p.Agrees d) (is js : List Item) :
    parse (is ++ js) p (is.flatMap (Item.write d) ++ s) =
      parse js (is.foldl (Item.note d) p) s := by
  induction is generalizing p with
  | nil => rfl
  | cons item is ih =>
    rw [List.cons_append, List.flatMap_cons, List.append_assoc, parse,
      Item.scan_write hfour hp, Option.bind_some, List.foldl_cons]
    exact ih (hp.note item)

/-! ### Round trips -/

/-- What has been read is enough for a date: a month, a day, and a year or the last two digits of one
in the hundred years from a pivot on. -/
structure Parsed.Enough (d : NaiveDate) (pivot : ℕ) (p : Parsed) : Prop where
  year : p.year = some d.year ∨ p.year = none ∧ p.yearMod100 = some (d.year % 100).toNat ∧
    1900 + pivot ≤ d.year ∧ d.year < 2000 + pivot ∧ pivot ≤ 100
  month : p.month = some d.month
  day : p.day = some d.day

/-- **A date is made of what has been read of it.** -/
theorem Parsed.Enough.toNaiveDate {pivot : ℕ} (h : p.Enough d pivot) (hp : p.Agrees d)
    (hfrom : 0 ≤ d.year) : p.toNaiveDate pivot = some d := by
  have hyear : p.resolveYear pivot = some d.year := by
    rw [resolveYear]
    rcases h.year with hy | ⟨hy, hr, hlow, hhigh, hpivot⟩
    · rcases hr : p.yearMod100 with _ | r
      · simp only [hy]
      · have hr := hp.yearMod100 r hr
        simp only [hy]
        rw [if_pos ⟨hfrom, by omega⟩]
    · simp only [hy, hr]
      split
      · congr 1
        omega
      · congr 1
        omega
  rw [Parsed.toNaiveDate, hyear, h.month, h.day]
  exact fromYmd_of_isDate d.isDate

/-- Of a list of items, what each item names has been read, and the rest is as before. -/
theorem foldl_note (d : NaiveDate) (is : List Item) (p : Parsed) :
    is.foldl (Item.note d) p =
      { year := if .year ∈ is then some d.year else p.year
        yearMod100 := if .yearMod100 ∈ is then some (d.year % 100).toNat else p.yearMod100
        month := if .month ∈ is ∨ .monthName ∈ is then some d.month else p.month
        day := if .day ∈ is then some d.day else p.day } := by
  induction is generalizing p with
  | nil => simp
  | cons item is ih =>
    rw [List.foldl_cons, ih]
    -- An item that comes again writes what it has written.
    cases item <;> simp [Item.note]

/-- **A date that is written in a format is read in it.** The format names a month, a day and a year,
which may be left to the last two digits where these are enough. -/
theorem parseFromStr_format {format : String} {is : List Item} {pivot : ℕ}
    (hitems : items format.toList = some is) (hfour : d.FourDigits)
    (hyear : .year ∈ is ∨ .yearMod100 ∈ is ∧ 1900 + pivot ≤ d.year ∧ d.year < 2000 + pivot ∧
      pivot ≤ 100)
    (hmonth : .month ∈ is ∨ .monthName ∈ is) (hday : .day ∈ is) :
    parseFromStr pivot format (d.format format) = some d := by
  have hread : parse is {} (is.flatMap (Item.write d)) = some (is.foldl (Item.note d) {}) := by
    simpa [parse] using parse_append_write (s := []) hfour (agrees_empty d) is []
  have henough : (is.foldl (Item.note d) {}).Enough d pivot := by
    rw [foldl_note]
    refine ⟨?_, if_pos hmonth, if_pos hday⟩
    by_cases hy : Item.year ∈ is
    · exact .inl (if_pos hy)
    · obtain ⟨hmod, hrange⟩ := hyear.resolve_left hy
      exact .inr ⟨if_neg hy, if_pos hmod, hrange⟩
  rw [parseFromStr, NaiveDate.format, hitems, Option.getD_some, Option.bind_eq_bind,
    Option.bind_some, hread]
  exact henough.toNaiveDate ((agrees_empty d).foldl is) hfour.1

/-! ### Reading in another format -/

/-- What is left of a text after a part of a date, if that part can be read. -/
def Item.Leaves (item : Item) (s rest : Text) : Prop :=
  ∀ p : Parsed, ∀ r ∈ item.scan p s, r.2 = rest

/-- Where the rest cannot be read, the whole cannot. -/
theorem Item.Leaves.parse_eq_none {item : Item} {is : List Item} {rest : Text}
    (h : item.Leaves s rest) (hrest : ∀ p, parse is p rest = none) (p : Parsed) :
    parse (item :: is) p s = none := by
  rw [parse, Option.bind_eq_none_iff]
  intro r hr
  rw [h p r hr]
  exact hrest r.1

theorem parse_literal_eq_none {c c' : Char} (hne : c ≠ c') (is : List Item) (p : Parsed) :
    parse (.literal c' :: is) p (c :: s) = none := by
  simp [parse, Item.scan, expect, hne]

/-- A literal character is read. -/
theorem leaves_literal (c : Char) (s : Text) : (Item.literal c).Leaves (c :: s) s := by
  intro p r hr
  simp only [Item.scan, expect, decide_true, if_true, Option.map_some, Option.mem_some_iff] at hr
  rw [← hr]

/-- Two digits are a month or a day, whatever comes after them. -/
theorem leaves_two {item : Item} (hitem : item = .month ∨ item = .day) {v : ℕ} (hv : v < 10 ^ 2)
    (s : Text) : item.Leaves (pad 2 v ++ s) s := by
  intro p r hr
  rcases hitem with rfl | rfl
  · simp only [Item.scan, dropWhile_pad, scanNumber_full (n := 1) hv, Option.bind_eq_bind,
      Option.bind_some, Option.mem_def, Option.bind_eq_some_iff] at hr
    obtain ⟨_, -, hr⟩ := hr
    rw [← Option.some.inj hr]
  · simp only [Item.scan, dropWhile_pad, scanNumber_full (n := 1) hv, Option.bind_eq_bind,
      Option.bind_some, Option.mem_def, Option.bind_eq_some_iff] at hr
    obtain ⟨_, -, hr⟩ := hr
    rw [← Option.some.inj hr]

/-- A year, where its digits are read to the end of them. -/
theorem leaves_year {n v : ℕ}
    (h : scanNumber 4 (pad (n + 1) v ++ s) = some (v, s)) :
    Item.year.Leaves (pad (n + 1) v ++ s) s := by
  intro p r hr
  simp only [Item.scan, dropWhile_pad, scanYear_pad, h, Option.map_some, Option.bind_eq_bind,
    Option.bind_some, Option.mem_def, Option.bind_eq_some_iff] at hr
  obtain ⟨_, -, hr⟩ := hr
  rw [← Option.some.inj hr]

/-- A month is no name. -/
theorem parse_month_eq_none {c : Char} (hdigit : c.isDigit = false) (hblank : isWhitespace c = false)
    (is : List Item) (p : Parsed) : parse (.month :: is) p (c :: s) = none := by
  simp [parse, Item.scan, hblank, scanNumber, hdigit]

/-- **A year of two digits is read from them**, where a year may have four. -/
theorem parseFromStr_short (pivot : ℕ) (hfrom : 0 ≤ d.year) (hto : d.year ≤ 99) :
    parseFromStr pivot "%m/%d/%Y" (d.format "%m/%d/%y") = some d := by
  have hfour : d.FourDigits := ⟨hfrom, by omega⟩
  obtain ⟨y, hy⟩ := Int.eq_ofNat_of_zero_le hfrom
  have hlt : y < 10 ^ (1 + 1) := by omega
  have hmod : (d.year % 100).toNat = y := by omega
  set is : List Item := [.month, .literal '/', .day, .literal '/']
  set q := is.foldl (Item.note d) {}
  have hformat : d.format "%m/%d/%y" = is.flatMap (Item.write d) ++ pad 2 y := by
    simp [NaiveDate.format, items, is, Item.write, hmod]
  -- The year ends with the text, so that two digits are all of it.
  have hyear : Item.year.scan q (pad 2 y) = some (Item.year.note d q, []) := by
    have hread : scanNumber 4 (pad (1 + 1) y ++ []) = some (y, []) := by
      rw [scanNumber_pad 2 1 y [], Nat.mod_eq_of_lt hlt]
      rfl
    have hagrees := (agrees_empty d).foldl is
    have hscan := scanYear_pad 1 y []
    have htrim := dropWhile_pad 1 y []
    rw [hread] at hscan
    rw [List.append_nil] at hscan htrim
    simp [Item.scan, htrim, hscan, Parsed.setYear, Item.note, ← hy,
      setIfConsistent_of_agrees hagrees.year, q]
  have hread : parse (is ++ [.year]) {} (d.format "%m/%d/%y") = some (Item.year.note d q) := by
    rw [hformat, parse_append_write hfour (agrees_empty d), parse, hyear]
    rfl
  have henough : (Item.year.note d q).Enough d pivot := ⟨.inl rfl, rfl, rfl⟩
  rw [parseFromStr, show items "%m/%d/%Y".toList = some (is ++ [.year]) from rfl,
    Option.bind_eq_bind, Option.bind_some, hread]
  exact henough.toNaiveDate (((agrees_empty d).foldl is).note .year) hfrom

/-! ### The text of a date -/

theorem text_eq (d : NaiveDate) :
    d.text = yearText d.year ++ '-' :: (pad 2 d.month ++ '-' :: pad 2 d.day) := by
  simp [NaiveDate.text, NaiveDate.format, items, Item.write]

theorem text_ne_nil (d : NaiveDate) : d.text ≠ [] := by
  rw [text_eq]
  exact List.append_ne_nil_of_right_ne_nil _ (List.cons_ne_nil _ _)

theorem length_pad (n v : ℕ) : (pad n v).length = n := by
  induction n with
  | zero => rfl
  | succ n ih => rw [pad, List.length_cons, ih]

/-- Two numerals of the same width are of one number. -/
theorem pad_inj {n v w : ℕ} (hv : v < 10 ^ n) (hw : w < 10 ^ n) (h : pad n v = pad n w) : v = w := by
  have hread := digits_of_lt hv []
  rw [h, digits_of_lt hw] at hread
  exact (Prod.mk.inj (Option.some.inj hread)).1.symm

/-- A signed year begins with its sign, and has the digits of its absolute value. -/
theorem yearText_of_not_fourDigits {y : ℤ} (h : ¬ (0 ≤ y ∧ y ≤ 9999)) :
    ∃ digits, yearText y = (if y < 0 then '-' else '+') :: digits ∧
      Nat.ofDigitChars 10 digits 0 = y.natAbs ∧ ∀ c ∈ digits, c.isDigit = true := by
  refine ⟨_, if_neg h, ?_, fun c hc => ?_⟩
  · rw [List.leftpad, Nat.ofDigitChars_append, Nat.ofDigitChars_replicate_zero, Nat.mul_zero,
      Nat.ofDigitChars_ten_toDigits]
  · rcases List.mem_append.mp hc with hc | hc
    · rw [List.eq_of_mem_replicate hc]
      rfl
    · exact Nat.isDigit_of_mem_toDigits (by omega) (by omega) hc

/-- The text of a year is that of no other. -/
theorem yearText_injective : Function.Injective yearText := by
  intro y y' h
  by_cases hy : 0 ≤ y ∧ y ≤ 9999 <;> by_cases hy' : 0 ≤ y' ∧ y' ≤ 9999
  · rw [yearText, yearText, if_pos hy, if_pos hy'] at h
    have := pad_inj (by omega) (by omega) h
    omega
  · -- A digit is no sign.
    obtain ⟨digits, htext, -, -⟩ := yearText_of_not_fourDigits hy'
    rw [htext, yearText, if_pos hy] at h
    obtain ⟨hminus, hplus⟩ := ne_sign_of_isDigit (digit_spec (y.toNat / 10 ^ 3)).1
    split at h
    · exact absurd (List.cons.inj h).1 hminus
    · exact absurd (List.cons.inj h).1 hplus
  · obtain ⟨digits, htext, -, -⟩ := yearText_of_not_fourDigits hy
    rw [htext, yearText, if_pos hy'] at h
    obtain ⟨hminus, hplus⟩ := ne_sign_of_isDigit (digit_spec (y'.toNat / 10 ^ 3)).1
    split at h
    · exact absurd (List.cons.inj h).1.symm hminus
    · exact absurd (List.cons.inj h).1.symm hplus
  · obtain ⟨digits, htext, hvalue, -⟩ := yearText_of_not_fourDigits hy
    obtain ⟨digits', htext', hvalue', -⟩ := yearText_of_not_fourDigits hy'
    rw [htext, htext'] at h
    obtain ⟨hsign, rfl⟩ := List.cons.inj h
    have habs : y.natAbs = y'.natAbs := hvalue.symm.trans hvalue'
    have hsame : y < 0 ↔ y' < 0 := by
      by_cases hneg : y < 0 <;> by_cases hneg' : y' < 0 <;> simp [hneg, hneg'] at hsign ⊢
    omega

/-- **The text of a date is that of no other.** -/
theorem text_injective : Function.Injective NaiveDate.text := by
  intro d d' h
  rw [text_eq, text_eq] at h
  obtain ⟨hyear, hrest⟩ := List.append_inj' h (by simp [length_pad])
  obtain ⟨hmonth, hday⟩ := List.append_inj (List.cons.inj hrest).2 (by simp [length_pad])
  have hd := d.day_le
  have hd' := d'.day_le
  exact NaiveDate.ext (yearText_injective hyear) (pad_inj d.month_lt d'.month_lt hmonth)
    (pad_inj (by omega) (by omega) (List.cons.inj hday).2)

theorem isDigit_of_mem_pad {n v : ℕ} {c : Char} (h : c ∈ pad n v) : c.isDigit = true := by
  induction n with
  | zero => exact absurd h (List.not_mem_nil)
  | succ n ih =>
    rcases List.mem_cons.mp h with rfl | h
    · exact (digit_spec _).1
    · exact ih h

/-- The text of a date is made of digits, dashes and a sign. -/
theorem of_mem_text {c : Char} (h : c ∈ d.text) : c.isDigit = true ∨ c = '-' ∨ c = '+' := by
  rw [text_eq] at h
  simp only [List.mem_append, List.mem_cons] at h
  rcases h with h | rfl | h | rfl | h
  · by_cases hy : 0 ≤ d.year ∧ d.year ≤ 9999
    · rw [yearText, if_pos hy] at h
      exact .inl (isDigit_of_mem_pad h)
    · obtain ⟨digits, htext, -, hdigits⟩ := yearText_of_not_fourDigits hy
      rw [htext] at h
      rcases List.mem_cons.mp h with h | h
      · split at h
        · exact .inr (.inl h)
        · exact .inr (.inr h)
      · exact .inl (hdigits c h)
  · exact .inr (.inl rfl)
  · exact .inl (isDigit_of_mem_pad h)
  · exact .inr (.inl rfl)
  · exact .inl (isDigit_of_mem_pad h)

/-! ### The number of a date -/

/-- The days before a date, since the beginning of the year -262400. -/
def NaiveDate.number (d : NaiveDate) : ℕ :=
  let year := (d.year + 262400).toNat
  cycleDays * (year / 400) + (daysBeforeYear (year % 400) +
    (daysBeforeMonth (year % 400) d.month + (d.day - 1)))

/-- The date that has a number. -/
def ofNumber (n : ℕ) : Option NaiveDate :=
  let year := yearOf (n % cycleDays)
  let dayOfYear := n % cycleDays - daysBeforeYear year
  let month := monthOf year dayOfYear
  fromYmd (400 * (n / cycleDays : ℕ) + year - 262400) month (dayOfYear - daysBeforeMonth year month + 1)

theorem daysBeforeYear_mono : Monotone daysBeforeYear :=
  monotone_nat_of_le_succ fun y => by
    rw [daysBeforeYear_succ]
    omega

theorem daysBeforeMonth_mono (y : ℕ) : Monotone (daysBeforeMonth y) := by
  intro m n h
  have hle : m - 1 ≤ n - 1 := by omega
  obtain ⟨t, ht⟩ := List.take_prefix_take_left (l := monthLengths (leap y)) hle
  rw [daysBeforeMonth, daysBeforeMonth, ← ht, List.sum_append]
  omega

/-- A day of a cycle is in one year only. -/
theorem yearOf_eq {y d : ℕ} (hy : y ≤ 399) (hfrom : daysBeforeYear y ≤ d)
    (hto : d < daysBeforeYear (y + 1)) : yearOf d = y := by
  refine Nat.findGreatest_eq_iff.mpr ⟨hy, fun _ => hfrom, fun n hlt _ hle => ?_⟩
  have := daysBeforeYear_mono (show y + 1 ≤ n from hlt)
  omega

/-- A day of a year is in one month only. -/
theorem monthOf_eq {y m d : ℕ} (hm : m ≤ 12) (hfrom : daysBeforeMonth y m ≤ d)
    (hto : d < daysBeforeMonth y (m + 1)) : monthOf y d = m := by
  refine Nat.findGreatest_eq_iff.mpr ⟨hm, fun _ => hfrom, fun n hlt _ hle => ?_⟩
  have := daysBeforeMonth_mono y (show m + 1 ≤ n from hlt)
  omega

/-- **A date has the number that it is found by.** -/
theorem ofNumber_number (d : NaiveDate) : ofNumber d.number = some d := by
  obtain ⟨hlow, -, hone, htwelve, hday, hend⟩ := d.isDate
  have hcycle : cycleDays = 146097 := rfl
  have hyears : daysBeforeYear 400 = cycleDays := rfl
  obtain ⟨year, hyear⟩ : ∃ year : ℕ, d.year = year - 262400 :=
    ⟨(d.year + 262400).toNat, by omega⟩
  have hmod : (d.year % 400).toNat = year % 400 := by omega
  rw [hmod] at hend
  have hbefore : (d.year + 262400).toNat = year := by omega
  have hwithin : year % 400 ≤ 399 := by omega
  have hlength := daysBeforeYear_succ (year % 400)
  have hmonths := daysBeforeMonth_mono (year % 400) (show d.month + 1 ≤ 13 by omega)
  have hnext := daysBeforeYear_mono (show year % 400 + 1 ≤ 400 by omega)
  simp only [NaiveDate.number, hbefore]
  -- What is before the date in its cycle is less than a cycle, and in its year less than a year.
  set dayOfYear := daysBeforeMonth (year % 400) d.month + (d.day - 1) with hdayOfYear
  have hlt : daysBeforeYear (year % 400) + dayOfYear < cycleDays := by omega
  have hpos : 0 < cycleDays := by decide
  rw [ofNumber, Nat.mul_add_mod, Nat.mod_eq_of_lt hlt, Nat.mul_add_div hpos, Nat.div_eq_of_lt hlt,
    yearOf_eq hwithin (by omega) (by omega), Nat.add_sub_cancel_left,
    monthOf_eq htwelve (by omega) (by omega), hdayOfYear, Nat.add_sub_cancel_left,
    Nat.sub_add_cancel hday]
  have hsame : 400 * ((year / 400 + 0 : ℕ) : ℤ) + ((year % 400 : ℕ) : ℤ) - 262400 = d.year := by
    omega
  rw [hsame]
  exact fromYmd_of_isDate d.isDate

theorem number_injective : Function.Injective NaiveDate.number := fun d d' h =>
  Option.some.inj (by rw [← ofNumber_number d, h, ofNumber_number])

end Marketplace.Chrono
