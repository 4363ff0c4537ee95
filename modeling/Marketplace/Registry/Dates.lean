import Marketplace.Registry.Columns
import Marketplace.Time.Chrono

/-!
# The dates of a licence file

A cell that holds a date is read in one format after the other, and the first that takes it decides
(`Marketplace.Registry.parseDate`). A date that is written in one of the formats is refused by those
before it, but for one: a year of two digits is a year to the format that has four of them, which
comes first (`Marketplace.Registry.covers_iff`).
-/

namespace Marketplace.Registry

open Chrono Rfc3339

/-- The library that dates are read and written with: a date stands for its number. -/
structure Atlas.KeepsDates (pivot : ℕ) (atlas : Atlas) : Prop where
  reads : ∀ format value,
    atlas.parseFromStr format value = (Chrono.parseFromStr pivot format value).map NaiveDate.number
  writes : ∀ d : NaiveDate, atlas.formatDate d.number = d.text

/-- **A format is covered, at a date**: the text of the date is read as the date, and the record of a
row that has the text in a cell has the date. -/
structure Atlas.Covers (atlas : Atlas) (format : String) (d : NaiveDate) : Prop where
  reads : parseDate atlas (d.format format) = some d.number
  stores : ∀ columns row record, buildRecord atlas columns row = .ok record →
    (columns.get row .issueDate = some (d.format format) → record.issueDate = some d.number) ∧
    (columns.get row .expirationDate = some (d.format format) →
      record.expirationDate = some d.number)

variable {atlas : Atlas} {pivot : ℕ} {columns : ColumnMap} {row : List Text}
  {record : LicenseRecord} {d : NaiveDate} {format : String} {s : Text}

/-! ### Records -/

/-- The record of a row that has everything mandatory. -/
theorem buildRecord_eq_ok (h : buildRecord atlas columns row = .ok record) :
    ∃ licenseNo businessName statusRaw, columns.get row .licenseNo = some licenseNo ∧
      columns.get row .businessName = some businessName ∧
      columns.get row .status = some statusRaw ∧
      record = { recordOf atlas columns row licenseNo businessName statusRaw with
        contentHash :=
          contentHash atlas (recordOf atlas columns row licenseNo businessName statusRaw) } := by
  rw [buildRecord] at h
  split at h
  next => exact nomatch h
  next => exact nomatch h
  next => exact nomatch h
  next licenseNo businessName statusRaw hno hname hstatus =>
    exact ⟨licenseNo, businessName, statusRaw, hno, hname, hstatus, (Except.ok.inj h).symm⟩

/-- The dates of a record are those that its cells are read as. -/
theorem buildRecord_dates (h : buildRecord atlas columns row = .ok record) :
    record.issueDate = (columns.get row .issueDate).bind (parseDate atlas) ∧
      record.expirationDate = (columns.get row .expirationDate).bind (parseDate atlas) := by
  obtain ⟨_, _, _, -, -, -, rfl⟩ := buildRecord_eq_ok h
  exact ⟨rfl, rfl⟩

/-! ### What a format refuses -/

theorem parseFromStr_eq_none {is : List Item} (hitems : items format.toList = some is)
    (h : ∀ p, parse is p s = none) : parseFromStr pivot format s = none := by
  rw [parseFromStr, hitems, Option.bind_eq_bind, Option.bind_some, h]
  rfl

/-- A year is followed by a dash. -/
theorem iso_refuses {n v : ℕ} {c : Char} (hread : scanNumber 4 (pad (n + 1) v ++ c :: s) =
    some (v, c :: s)) (hne : c ≠ '-') :
    parseFromStr pivot "%Y-%m-%d" (pad (n + 1) v ++ c :: s) = none :=
  parseFromStr_eq_none rfl ((leaves_year hread).parse_eq_none (parse_literal_eq_none hne _))

/-- A month is a number where it is not a name. -/
theorem iso_refuses_name {v : ℕ} (hv : v < 10 ^ 2) {c : Char} (hdigit : c.isDigit = false)
    (hblank : isWhitespace c = false) :
    parseFromStr pivot "%Y-%m-%d" (pad 2 v ++ '-' :: c :: s) = none := by
  have hread : scanNumber 4 (pad (1 + 1) v ++ '-' :: c :: s) = some (v, '-' :: c :: s) :=
    scanNumber_short (k := 2) hv rfl _
  refine parseFromStr_eq_none rfl ((leaves_year hread).parse_eq_none ?_)
  exact (leaves_literal '-' _).parse_eq_none (parse_month_eq_none hdigit hblank _)

/-- A month is followed by a slash. -/
theorem slashes_refuse {v : ℕ} (hv : v < 10 ^ 2) {c : Char} (hne : c ≠ '/') :
    parseFromStr pivot "%m/%d/%Y" (pad 2 v ++ c :: s) = none :=
  parseFromStr_eq_none rfl ((leaves_two (.inl rfl) hv _).parse_eq_none (parse_literal_eq_none hne _))

/-- A day is followed by a dash. -/
theorem names_refuse {v : ℕ} (hv : v < 10 ^ 2) {c : Char} (hne : c ≠ '-') :
    parseFromStr pivot "%d-%b-%Y" (pad 2 v ++ c :: s) = none :=
  parseFromStr_eq_none rfl ((leaves_two (.inr rfl) hv _).parse_eq_none (parse_literal_eq_none hne _))

/-! ### The texts of a date -/

/-- The name of a month begins with a letter. -/
theorem monthName_write (d : NaiveDate) : ∃ c s, Item.monthName.write d = c :: s ∧
    c.isDigit = false ∧ isWhitespace c = false := by
  have hall : ∀ m < 12, (monthNames[m]?.getD "").toList.head?.any
      (fun c => !c.isDigit && !isWhitespace c) = true := by decide +kernel
  have hone := d.isDate.one_le_month
  have htwelve := d.isDate.month_le
  have hletter := hall (d.month - 1) (by omega)
  rw [Item.write]
  generalize (monthNames[d.month - 1]?.getD "").toList = name at hletter ⊢
  rcases name with _ | ⟨c, s⟩
  · exact absurd hletter (by decide)
  · rw [List.head?_cons, Option.any_some, Bool.and_eq_true, Bool.not_eq_true',
      Bool.not_eq_true'] at hletter
    exact ⟨c, s, rfl, hletter⟩

theorem write_year (h : d.FourDigits) : Item.year.write d = pad 4 d.year.toNat := if_pos h

theorem digit_ne {n : ℕ} {c : Char} (h : c.isDigit = false) : Rfc3339.digit n ≠ c := by
  rintro rfl
  rw [(digit_spec n).1] at h
  exact Bool.noConfusion h

/-- With slashes, the first number is no year. -/
theorem iso_refuses_slashes (d : NaiveDate) (rest : Text) :
    parseFromStr pivot "%Y-%m-%d" (pad 2 d.month ++ '/' :: rest) = none :=
  iso_refuses (scanNumber_short (k := 2) d.month_lt rfl _) (by decide)

/-! ### The first format that takes a text -/

theorem parseDate_eq (h : atlas.KeepsDates pivot) (s : Text) :
    parseDate atlas s =
      (dateFormats.findSome? fun format => parseFromStr pivot format s).map NaiveDate.number := by
  rw [parseDate, List.map_findSome?]
  congr 1
  funext format
  exact h.reads format s

/-- The text of a date, with its parts in the order of the format. -/
theorem format_eq {is : List Item} (h : items format.toList = some is) (d : NaiveDate) :
    d.format format = is.flatMap (Item.write d) := by
  rw [NaiveDate.format, h, Option.getD_some]

/-- **A date is read as itself in every format but the last**: the formats before its own refuse its
text. -/
theorem findSome?_format (hfour : d.FourDigits) (hformat : format ∈ dateFormats)
    (hne : format ≠ "%m/%d/%y") :
    dateFormats.findSome? (fun f => parseFromStr pivot f (d.format format)) = some d := by
  simp only [dateFormats, List.mem_cons, List.not_mem_nil, or_false] at hformat
  obtain ⟨c, name, hname, hdigit, hblank⟩ := monthName_write d
  have hday : d.day < 10 ^ 2 := by
    have := d.day_le
    omega
  have hyear : d.year.toNat < 10 ^ 4 := by
    have := hfour.2
    omega
  rcases hformat with rfl | rfl | rfl | rfl | rfl
  · have hread : parseFromStr pivot "%Y-%m-%d" (d.format "%Y-%m-%d") = some d :=
      parseFromStr_format rfl hfour (.inl (by decide)) (by decide) (by decide)
    rw [dateFormats, List.findSome?_cons, hread]
  · have hread : parseFromStr pivot "%m/%d/%Y" (d.format "%m/%d/%Y") = some d :=
      parseFromStr_format rfl hfour (.inl (by decide)) (by decide) (by decide)
    have hiso : parseFromStr pivot "%Y-%m-%d" (d.format "%m/%d/%Y") = none := by
      rw [format_eq rfl]
      exact iso_refuses_slashes d _
    rw [dateFormats, List.findSome?_cons, hiso, List.findSome?_cons, hread]
  · have hread : parseFromStr pivot "%d-%b-%Y" (d.format "%d-%b-%Y") = some d :=
      parseFromStr_format rfl hfour (.inl (by decide)) (by decide) (by decide)
    obtain ⟨rest, htext⟩ : ∃ rest, d.format "%d-%b-%Y" = pad 2 d.day ++ '-' :: c :: rest := by
      refine ⟨name ++ '-' :: (Item.year.write d ++ []), ?_⟩
      rw [format_eq (show items "%d-%b-%Y".toList =
        some [.day, .literal '-', .monthName, .literal '-', .year] from rfl), List.flatMap_cons,
        List.flatMap_cons, List.flatMap_cons, hname]
      rfl
    have hiso : parseFromStr pivot "%Y-%m-%d" (d.format "%d-%b-%Y") = none := by
      rw [htext]
      exact iso_refuses_name hday hdigit hblank
    have hslashes : parseFromStr pivot "%m/%d/%Y" (d.format "%d-%b-%Y") = none := by
      rw [htext]
      exact slashes_refuse hday (by decide)
    rw [dateFormats, List.findSome?_cons, hiso, List.findSome?_cons, hslashes, List.findSome?_cons,
      hread]
  · have hread : parseFromStr pivot "%Y%m%d" (d.format "%Y%m%d") = some d :=
      parseFromStr_format rfl hfour (.inl (by decide)) (by decide) (by decide)
    -- Eight digits: the year is four of them, and a month or a day would be two.
    obtain ⟨rest, htext⟩ :
        ∃ rest, d.format "%Y%m%d" = pad 4 d.year.toNat ++ (pad 2 d.month ++ rest) := by
      refine ⟨pad 2 d.day ++ [], ?_⟩
      rw [format_eq (show items "%Y%m%d".toList = some [.year, .month, .day] from rfl),
        List.flatMap_cons, write_year hfour]
      rfl
    have hiso : parseFromStr pivot "%Y-%m-%d" (d.format "%Y%m%d") = none := by
      rw [htext, pad_succ_append]
      exact iso_refuses (scanNumber_full (n := 3) hyear _) (digit_ne rfl)
    have hhalf : d.year.toNat / 10 ^ 2 < 10 ^ 2 := by omega
    have htwo : d.format "%Y%m%d" = pad 2 (d.year.toNat / 10 ^ 2) ++
        (pad 2 d.year.toNat ++ (pad 2 d.month ++ rest)) := by
      rw [htext, pad_add 2 2, List.append_assoc]
    rw [pad_succ_append] at htwo
    have hslashes : parseFromStr pivot "%m/%d/%Y" (d.format "%Y%m%d") = none := by
      rw [htwo]
      exact slashes_refuse hhalf (digit_ne rfl)
    have hnames : parseFromStr pivot "%d-%b-%Y" (d.format "%Y%m%d") = none := by
      rw [htwo]
      exact names_refuse hhalf (digit_ne rfl)
    rw [dateFormats, List.findSome?_cons, hiso, List.findSome?_cons, hslashes, List.findSome?_cons,
      hnames, List.findSome?_cons, hread]
  · exact absurd rfl hne

/-! ### Years of two digits -/

/-- The calendars of a hundred years are those of the years 0 to 99. -/
theorem isDate_mod_hundred (d : NaiveDate) (hfrom : 1969 ≤ d.year) (hto : d.year ≤ 2068) :
    IsDate (d.year % 100) d.month d.day := by
  have hall : ∀ k < 100, leap ((1969 + k) % 100) = leap ((1969 + k) % 400) := by decide
  obtain ⟨-, -, hone, htwelve, hday, hend⟩ := d.isDate
  have hleap := hall (d.year.toNat - 1969) (by omega)
  have hshort : (d.year % 100 % 400).toNat = (1969 + (d.year.toNat - 1969)) % 100 := by omega
  have hlong : (d.year % 400).toNat = (1969 + (d.year.toNat - 1969)) % 400 := by omega
  rw [hlong] at hend
  refine ⟨by omega, by omega, hone, htwelve, hday, ?_⟩
  rw [hshort]
  simpa only [daysBeforeMonth, hleap] using hend

variable (pivot) in
/-- **With a year of two digits, a date is read as one of the first century**: the second format takes
its text. -/
theorem findSome?_short (d : NaiveDate) (hfrom : 1969 ≤ d.year) (hto : d.year ≤ 2068) :
    ∃ early : NaiveDate, early.year = d.year % 100 ∧
      dateFormats.findSome? (fun f => parseFromStr pivot f (d.format "%m/%d/%y")) = some early := by
  let early : NaiveDate := ⟨d.year % 100, d.month, d.day, isDate_mod_hundred d hfrom hto⟩
  have hsame : d.format "%m/%d/%y" = early.format "%m/%d/%y" := by
    simp [NaiveDate.format, items, Item.write, early]
  have hiso : parseFromStr pivot "%Y-%m-%d" (early.format "%m/%d/%y") = none := by
    rw [format_eq rfl]
    exact iso_refuses_slashes early _
  have hyear : early.year = d.year % 100 := rfl
  have hread : parseFromStr pivot "%m/%d/%Y" (early.format "%m/%d/%y") = some early :=
    parseFromStr_short pivot (by omega) (by omega)
  refine ⟨early, hyear, ?_⟩
  rw [hsame, dateFormats, List.findSome?_cons, hiso, List.findSome?_cons, hread]

/-! ### Coverage -/

/-- What a text is read as is what is stored of it. -/
theorem Atlas.Covers.of_reads (h : parseDate atlas (d.format format) = some d.number) :
    atlas.Covers format d where
  reads := h
  stores columns row record hrecord := by
    obtain ⟨hissue, hexpiration⟩ := buildRecord_dates hrecord
    refine ⟨fun hcell => ?_, fun hcell => ?_⟩
    · rw [hissue, hcell, Option.bind_some, h]
    · rw [hexpiration, hcell, Option.bind_some, h]

/-- **The formats that are covered are those whose years have four digits.** -/
theorem covers_iff (h : atlas.KeepsDates pivot) (hformat : format ∈ dateFormats)
    (hfrom : 1969 ≤ d.year) (hto : d.year ≤ 2068) :
    atlas.Covers format d ↔ format ≠ "%m/%d/%y" := by
  constructor
  · rintro hcovers rfl
    obtain ⟨early, hearly, hread⟩ := findSome?_short pivot d hfrom hto
    have hsame := hcovers.reads
    rw [parseDate_eq h, hread, Option.map_some, Option.some.injEq] at hsame
    have hyear := congrArg NaiveDate.year (number_injective hsame)
    omega
  · intro hne
    have hfour : d.FourDigits := ⟨by omega, by omega⟩
    refine Atlas.Covers.of_reads ?_
    rw [parseDate_eq h, findSome?_format hfour hformat hne, Option.map_some]

/-- An atlas whose dates are those of the library. -/
def Atlas.dated (pivot : ℕ) : Atlas :=
  { Atlas.plain with
    parseFromStr := fun format s => (Chrono.parseFromStr pivot format s).map NaiveDate.number
    formatDate := fun n => ((ofNumber n).map NaiveDate.text).getD [] }

theorem keepsDates_dated (pivot : ℕ) : (Atlas.dated pivot).KeepsDates pivot where
  reads _ _ := rfl
  writes d := by
    change ((ofNumber d.number).map NaiveDate.text).getD [] = d.text
    rw [ofNumber_number, Option.map_some, Option.getD_some]

/-- The last day of February 2024, as an ISO date. -/
theorem covers_leapDay : ("%Y-%m-%d" ∈ dateFormats ∧ (1969 : ℤ) ≤ 2024 ∧ (2024 : ℤ) ≤ 2068) ∧
    ((Atlas.dated 69).Covers "%Y-%m-%d" ⟨2024, 2, 29, by decide⟩ ↔ "%Y-%m-%d" ≠ "%m/%d/%y") :=
  ⟨by decide, covers_iff (keepsDates_dated 69) (by decide) (by decide) (by decide)⟩

/-- The second of January 2024, with a year of two digits, is read as that of the year 24. -/
theorem not_covers : ¬ ∀ format ∈ dateFormats, ∀ d : NaiveDate, 1969 ≤ d.year → d.year ≤ 2068 →
    (Atlas.dated 69).Covers format d := by
  intro h
  have hcovers := h "%m/%d/%y" (by decide) ⟨2024, 1, 2, by decide⟩ (by decide) (by decide)
  have hread : (dateFormats.findSome? fun f => Chrono.parseFromStr 69 f "01/02/24".toList) =
      some ⟨24, 1, 2, by decide⟩ := by decide +kernel
  have htext : NaiveDate.format ⟨2024, 1, 2, by decide⟩ "%m/%d/%y" = "01/02/24".toList := by
    decide +kernel
  have hsame := hcovers.reads
  rw [htext, parseDate_eq (keepsDates_dated 69), hread, Option.map_some, Option.some.injEq] at hsame
  have hyear := congrArg NaiveDate.year (number_injective hsame)
  exact absurd hyear (by decide)

end Marketplace.Registry
