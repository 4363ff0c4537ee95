import Mathlib.Data.Nat.Find
import Mathlib.Algebra.Order.Group.Int
import Mathlib.Tactic.Ring

/-!
# Timestamps as text

The calendar, and the text of a timestamp as RFC 3339 has it: a year of four digits, the
date and the time of day, and an offset from UTC. A timestamp is the number of seconds since
the beginning of the year 0, in UTC; fractions of a second and leap seconds are left out.

A text may be written with any offset, and the timestamp it stands for is taken to UTC, so
that the last hours of the year 9999 may lie in the year 10000 and the first of the year 0
before it. Such a timestamp is written with a year that is signed, which no text that is
read has: `Rfc3339.parse_format` is about the timestamps of four digits.
-/

namespace Rfc3339

/-! ### Numerals -/

/-- The last decimal digit of a number. -/
def digit (n : ℕ) : Char := Char.ofNat (48 + n % 10)

/-- The last `n` decimal digits of a number. -/
def pad : ℕ → ℕ → List Char
  | 0, _ => []
  | n + 1, v => digit (v / 10 ^ n) :: pad n v

/-- Reads `n` digits. -/
def digits : ℕ → ℕ → List Char → Option (ℕ × List Char)
  | 0, acc, s => some (acc, s)
  | n + 1, acc, c :: s => if c.isDigit then digits n (10 * acc + (c.toNat - 48)) s else none
  | _ + 1, _, [] => none

/-- Reads one of some characters. -/
def expect (p : Char → Bool) : List Char → Option (List Char)
  | c :: s => if p c then some s else none
  | [] => none

/-- A digit is one, and is read as its value. -/
theorem digit_spec (n : ℕ) : (digit n).isDigit = true ∧ (digit n).toNat - 48 = n % 10 := by
  have hlt : n % 10 < 10 := Nat.mod_lt _ (by omega)
  have hall : ∀ d < 10, (Char.ofNat (48 + d)).isDigit = true ∧ (Char.ofNat (48 + d)).toNat - 48 = d := by
    decide
  exact hall _ hlt

/-- **Digits are read as they were written.** -/
theorem digits_pad (n v acc : ℕ) (s : List Char) :
    digits n acc (pad n v ++ s) = some (acc * 10 ^ n + v % 10 ^ n, s) := by
  induction n generalizing acc with
  | zero => simp [digits, pad, Nat.mod_one]
  | succ n ih =>
    obtain ⟨hdigit, hvalue⟩ := digit_spec (v / 10 ^ n)
    rw [pad, List.cons_append, digits, if_pos hdigit, ih, hvalue, Nat.mod_pow_succ]
    congr 2
    ring

/-- A number of few digits is read as it was written. -/
theorem digits_of_lt {n v : ℕ} (h : v < 10 ^ n) (s : List Char) :
    digits n 0 (pad n v ++ s) = some (v, s) := by
  rw [digits_pad, Nat.mod_eq_of_lt h, Nat.zero_mul, Nat.zero_add]

/-! ### The calendar -/

/-- Whether a year has a leap day. -/
def leap (y : ℕ) : Bool := y % 4 = 0 && (y % 100 ≠ 0 || y % 400 = 0)

/-- The lengths of the months of a year, with a leap day or without. -/
def monthLengths (leapDay : Bool) : List ℕ :=
  [31, if leapDay then 29 else 28, 31, 30, 31, 30, 31, 31, 30, 31, 30, 31]

/-- The days of a year before its month `m`, counted from one. -/
def daysBeforeMonth (y m : ℕ) : ℕ := ((monthLengths (leap y)).take (m - 1)).sum

/-- The days before a year, since the year 0. -/
def daysBeforeYear (y : ℕ) : ℕ := 365 * y + (y + 3) / 4 - (y + 99) / 100 + (y + 399) / 400

/-- The days of four hundred years. -/
def cycleDays : ℕ := 146097

/-- A date and a time of day. -/
structure DateTime where
  year : ℤ
  month : ℕ
  day : ℕ
  hour : ℕ
  minute : ℕ
  second : ℕ
  deriving DecidableEq

/-- The year of a cycle that has its day `d`. -/
def yearOf (d : ℕ) : ℕ := Nat.findGreatest (fun y => daysBeforeYear y ≤ d) 399

/-- The month of a year that has its day `d`. -/
def monthOf (y d : ℕ) : ℕ := Nat.findGreatest (fun m => daysBeforeMonth y m ≤ d) 12

/-- The date and the time of a timestamp. -/
def ofSeconds (t : ℤ) : DateTime :=
  let days := t / 86400
  let second := (t % 86400).toNat
  let dayOfCycle := (days % cycleDays).toNat
  let year := yearOf dayOfCycle
  let dayOfYear := dayOfCycle - daysBeforeYear year
  let month := monthOf year dayOfYear
  { year := 400 * (days / cycleDays) + year
    month := month
    day := dayOfYear - daysBeforeMonth year month + 1
    hour := second / 3600
    minute := second / 60 % 60
    second := second % 60 }

/-- The timestamp of a date and a time, if there are such. -/
def toSeconds (d : DateTime) : Option ℤ :=
  let year := (d.year % 400).toNat
  if 1 ≤ d.month ∧ d.month ≤ 12 ∧ 1 ≤ d.day ∧
      daysBeforeMonth year d.month + d.day ≤ daysBeforeMonth year (d.month + 1) ∧
      d.hour < 24 ∧ d.minute < 60 ∧ d.second < 60 then
    some (86400 * (cycleDays * (d.year / 400) + daysBeforeYear year + daysBeforeMonth year d.month +
      (d.day - 1 : ℕ)) + 3600 * d.hour + 60 * d.minute + d.second)
  else none

/-- The multiples of a number below the next year. -/
theorem ceil_succ (y k : ℕ) (hk : 0 < k) :
    (y + 1 + (k - 1)) / k = (y + (k - 1)) / k + if y % k = 0 then 1 else 0 := by
  have hy := Nat.div_add_mod y k
  have hlt := Nat.mod_lt y hk
  generalize y / k = q at hy
  generalize y % k = r at hy hlt ⊢
  subst hy
  have hnext : k * q + r + 1 + (k - 1) = r + k * (q + 1) := by
    rw [Nat.mul_add]
    omega
  have hthis : k * q + r + (k - 1) = r + (k - 1) + k * q := by omega
  rw [hnext, hthis, Nat.add_mul_div_left _ _ hk, Nat.add_mul_div_left _ _ hk,
    Nat.div_eq_of_lt hlt]
  rcases r with _ | r
  · rw [if_pos rfl, Nat.div_eq_of_lt (by omega)]
    omega
  · have hcarry : (r + 1 + (k - 1)) / k = 1 := by
      rw [show r + 1 + (k - 1) = r + k * 1 by omega, Nat.add_mul_div_left _ _ hk,
        Nat.div_eq_of_lt (by omega)]
    rw [if_neg (by omega), hcarry]
    omega

/-- A year is as long as its months. -/
theorem daysBeforeYear_succ (y : ℕ) :
    daysBeforeYear (y + 1) = daysBeforeYear y + daysBeforeMonth y 13 := by
  have hmonths : daysBeforeMonth y 13 = if leap y then 366 else 365 := by
    rw [daysBeforeMonth]
    rcases leap y <;> rfl
  have h4 := ceil_succ y 4 (by omega)
  have h100 := ceil_succ y 100 (by omega)
  have h400 := ceil_succ y 400 (by omega)
  simp only [Nat.reduceSub] at h4 h100 h400
  have hfewer : (y + 99) / 100 ≤ 365 * y := by omega
  rw [hmonths, daysBeforeYear, daysBeforeYear, h4, h100, h400]
  generalize (y + 3) / 4 = fourths at *
  generalize (y + 99) / 100 = centuries at *
  generalize (y + 399) / 400 = cycles at *
  by_cases d4 : y % 4 = 0
  · by_cases d100 : y % 100 = 0
    · by_cases d400 : y % 400 = 0
      · have hleap : leap y = true := by simp [leap, d4, d400]
        rw [if_pos d4, if_pos d100, if_pos d400, if_pos hleap]
        omega
      · have hleap : ¬ leap y = true := by simp [leap, d100, d400]
        rw [if_pos d4, if_pos d100, if_neg d400, if_neg hleap]
        omega
    · have hleap : leap y = true := by simp [leap, d4, d100]
      rw [if_pos d4, if_neg d100, if_neg (by omega), if_pos hleap]
      omega
  · have hleap : ¬ leap y = true := by simp [leap, d4]
    rw [if_neg d4, if_neg (by omega), if_neg (by omega), if_neg hleap]
    omega

/-! ### Timestamps and dates -/

/-- The timestamps of the years 0 to 9999. -/
def FourDigits (t : ℤ) : Prop := 0 ≤ t ∧ t < 25 * cycleDays * 86400

/-- The year of a day of a cycle, and the day of that year. -/
theorem yearOf_spec {d : ℕ} (hd : d < cycleDays) :
    yearOf d ≤ 399 ∧ daysBeforeYear (yearOf d) ≤ d ∧
      d - daysBeforeYear (yearOf d) < daysBeforeMonth (yearOf d) 13 := by
  have hle : yearOf d ≤ 399 := Nat.findGreatest_le 399
  have hspec : daysBeforeYear (yearOf d) ≤ d :=
    @Nat.findGreatest_spec 0 (fun y => daysBeforeYear y ≤ d) _ 399 (by omega) (by simp [daysBeforeYear])
  refine ⟨hle, hspec, ?_⟩
  have hnext : d < daysBeforeYear (yearOf d + 1) := by
    rcases hle.lt_or_eq with hlt | heq
    · have hnot := @Nat.findGreatest_is_greatest (yearOf d + 1) (fun y => daysBeforeYear y ≤ d) _ 399
        (Nat.lt_succ_self _) hlt
      omega
    · rw [heq]
      exact hd
  rw [daysBeforeYear_succ] at hnext
  omega

/-- The month of a day of a year, and the day of that month. -/
theorem monthOf_spec {y d : ℕ} (hd : d < daysBeforeMonth y 13) :
    1 ≤ monthOf y d ∧ monthOf y d ≤ 12 ∧ daysBeforeMonth y (monthOf y d) ≤ d ∧
      d < daysBeforeMonth y (monthOf y d + 1) := by
  have hle : monthOf y d ≤ 12 := Nat.findGreatest_le 12
  have hone : daysBeforeMonth y 1 ≤ d := Nat.zero_le d
  refine ⟨Nat.le_findGreatest (by omega) hone, hle,
    @Nat.findGreatest_spec 1 (fun m => daysBeforeMonth y m ≤ d) _ 12 (by omega) hone, ?_⟩
  rcases hle.lt_or_eq with hlt | heq
  · have hnot := @Nat.findGreatest_is_greatest (monthOf y d + 1) (fun m => daysBeforeMonth y m ≤ d) _ 12
      (Nat.lt_succ_self _) hlt
    omega
  · rw [heq]
    exact hd

/-- **A timestamp is that of its date and time.** -/
theorem toSeconds_ofSeconds (t : ℤ) : toSeconds (ofSeconds t) = some t := by
  have hdays : 86400 * (t / 86400) + t % 86400 = t := Int.mul_ediv_add_emod t 86400
  have hcycles : (cycleDays : ℤ) * (t / 86400 / cycleDays) + t / 86400 % cycleDays = t / 86400 :=
    Int.mul_ediv_add_emod _ _
  have hsecond : 0 ≤ t % 86400 ∧ t % 86400 < 86400 :=
    ⟨Int.emod_nonneg _ (by omega), Int.emod_lt_of_pos _ (by omega)⟩
  have hday : 0 ≤ t / 86400 % cycleDays ∧ t / 86400 % cycleDays < cycleDays :=
    ⟨Int.emod_nonneg _ (by decide), Int.emod_lt_of_pos _ (by decide)⟩
  rw [ofSeconds]
  generalize t / 86400 / cycleDays = cycle at *
  generalize t / 86400 % cycleDays = day at *
  generalize t / 86400 = days at *
  generalize t % 86400 = second at *
  obtain ⟨day, rfl⟩ := Int.eq_ofNat_of_zero_le hday.1
  obtain ⟨second, rfl⟩ := Int.eq_ofNat_of_zero_le hsecond.1
  simp only [Int.toNat_natCast, Nat.cast_lt] at hday hsecond ⊢
  obtain ⟨hyear, hfrom, hwithin⟩ := yearOf_spec hday.2
  obtain ⟨hmonth, htwelve, hstart, hend⟩ := monthOf_spec hwithin
  generalize yearOf day = year at *
  generalize monthOf year (day - daysBeforeYear year) = month at *
  have hmod : ((400 * cycle + (year : ℤ)) % 400).toNat = year := by omega
  have hdiv : (400 * cycle + (year : ℤ)) / 400 = cycle := by omega
  rw [toSeconds]
  simp only [hmod, hdiv]
  rw [if_pos (by omega)]
  congr 1
  push_cast
  omega

/-! ### Texts -/

/-- The text of a year: four digits, or signed. -/
def yearText (y : ℤ) : List Char :=
  if 0 ≤ y ∧ y ≤ 9999 then pad 4 y.toNat
  else (if y < 0 then '-' else '+') :: List.leftpad 4 '0' (Nat.toDigits 10 y.natAbs)

/-- **The text of a timestamp**, in UTC. -/
def format (t : ℤ) : List Char :=
  let d := ofSeconds t
  yearText d.year ++ '-' :: pad 2 d.month ++ '-' :: pad 2 d.day ++ 'T' :: pad 2 d.hour ++
    ':' :: pad 2 d.minute ++ ':' :: pad 2 d.second ++ "+00:00".toList

/-- The offset at the end of a text, in minutes. -/
def parseOffset : List Char → Option ℤ
  | ['Z'] | ['z'] => some 0
  | sign :: s => do
    let (hours, s) ← digits 2 0 s
    let s ← expect (· = ':') s
    let (minutes, s) ← digits 2 0 s
    guard (s = [] ∧ hours < 24 ∧ minutes < 60)
    if sign = '+' then some (60 * hours + minutes)
    else if sign = '-' then some (-(60 * hours + minutes)) else none
  | [] => none

/-- **The timestamp that a text stands for.** -/
def parse (s : List Char) : Option ℤ := do
  let (year, s) ← digits 4 0 s
  let s ← expect (· = '-') s
  let (month, s) ← digits 2 0 s
  let s ← expect (· = '-') s
  let (day, s) ← digits 2 0 s
  let s ← expect (fun c => c = 'T' || c = 't' || c = ' ') s
  let (hour, s) ← digits 2 0 s
  let s ← expect (· = ':') s
  let (minute, s) ← digits 2 0 s
  let s ← expect (· = ':') s
  let (second, s) ← digits 2 0 s
  let t ← toSeconds ⟨year, month, day, hour, minute, second⟩
  let offset ← parseOffset s
  return t - 60 * offset

/-- A month is no longer than thirty-one days. -/
theorem daysBeforeMonth_succ_le (y : ℕ) {m : ℕ} (hm : m ≤ 12) :
    daysBeforeMonth y (m + 1) ≤ daysBeforeMonth y m + 31 := by
  have hall : ∀ leapDay : Bool, ∀ m ≤ 12, ((monthLengths leapDay).take m).sum ≤
      ((monthLengths leapDay).take (m - 1)).sum + 31 := by decide
  exact hall (leap y) m hm

/-- The fields of a date have two digits. -/
theorem toSeconds_bounds {d : DateTime} {t : ℤ} (h : toSeconds d = some t) :
    d.month < 100 ∧ d.day < 100 ∧ d.hour < 100 ∧ d.minute < 100 ∧ d.second < 100 := by
  rw [toSeconds] at h
  split at h
  next hvalid =>
    have hlength := daysBeforeMonth_succ_le (d.year % 400).toNat hvalid.2.1
    omega
  next => exact absurd h (by simp)

/-- The year of a timestamp of four digits. -/
theorem year_ofSeconds {t : ℤ} (h : FourDigits t) :
    0 ≤ (ofSeconds t).year ∧ (ofSeconds t).year ≤ 9999 := by
  have hcycle : cycleDays = 146097 := rfl
  obtain ⟨hfrom, hto⟩ := h
  have hday : (t / 86400 % cycleDays).toNat < cycleDays := by
    rw [hcycle]
    omega
  obtain ⟨hyear, -, -⟩ := yearOf_spec hday
  change 0 ≤ 400 * (t / 86400 / cycleDays) + (yearOf (t / 86400 % cycleDays).toNat : ℤ) ∧
    400 * (t / 86400 / cycleDays) + (yearOf (t / 86400 % cycleDays).toNat : ℤ) ≤ 9999
  generalize yearOf (t / 86400 % cycleDays).toNat = year at *
  rw [hcycle] at *
  omega

/-- **A timestamp of four digits is read back as it was written.** -/
theorem parse_format {t : ℤ} (h : FourDigits t) : parse (format t) = some t := by
  have hread := toSeconds_ofSeconds t
  obtain ⟨hfrom, hto⟩ := year_ofSeconds h
  obtain ⟨hmonth, hday, hhour, hminute, hsecond⟩ := toSeconds_bounds hread
  rw [format]
  generalize ofSeconds t = d at *
  obtain ⟨year, hyear⟩ := Int.eq_ofNat_of_zero_le hfrom
  have hfour : year < 10000 := by omega
  have hutc : parseOffset "+00:00".toList = some 0 := by decide
  have hdate : (⟨year, d.month, d.day, d.hour, d.minute, d.second⟩ : DateTime) = d := by
    rw [← hyear]
  have htwo : ∀ v s, v < 100 → digits 2 0 (pad 2 v ++ s) = some (v, s) :=
    fun v s hv => digits_of_lt hv s
  have hyears : ∀ s, digits 4 0 (pad 4 year ++ s) = some (year, s) := digits_of_lt hfour
  rw [yearText, if_pos ⟨hfrom, hto⟩, hyear, Int.toNat_natCast]
  simp only [List.append_assoc, List.cons_append, parse, hyears, expect, Option.bind_eq_bind,
    Option.bind_some, htwo _ _ hmonth, htwo _ _ hday, htwo _ _ hhour, htwo _ _ hminute,
    htwo _ _ hsecond, decide_true, Bool.true_or, if_true, hdate, hread, hutc]
  simp

example : parse "2026-02-28T23:59:59-01:00".toList = parse "2026-03-01T00:59:59Z".toList := by
  decide +kernel

end Rfc3339
