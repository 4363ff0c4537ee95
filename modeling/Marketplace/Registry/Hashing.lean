import Marketplace.Registry.Dates
import Marketplace.Words.Split

/-!
# What the digest of a record is made from

The digest that decides whether a licence has changed is that of the record's fields, each as text
and with a zero byte after it; an absent field is an empty text. No field that is there is written
as the empty text, and no code of a classification has a comma in it, so that two records of which
the digest is made from the same bytes have the same fields
(`Marketplace.Registry.digestInput_eq_iff`).
-/

namespace Marketplace.Registry

open Chrono Rfc3339

/-! ### Bytes -/

/-- `str::as_bytes`. -/
def asBytes (t : Text) : List UInt8 := t.flatMap String.utf8EncodeChar

/-- What `content_hash` feeds to the digest. -/
def digestInput (atlas : Atlas) (record : LicenseRecord) : List UInt8 :=
  (hashedFields atlas record).flatMap fun field => asBytes field ++ [0]

/-- **The hashed fields are the same**: the records differ in the number of the licence, in the row
they come from and in the digest, if at all. -/
def SameHashed (record record' : LicenseRecord) : Prop :=
  record = { record' with
    licenseNo := record.licenseNo
    raw := record.raw
    contentHash := record.contentHash }

/-- The texts of two byte strings that are the same are the same. -/
theorem asBytes_injective : Function.Injective asBytes := by
  intro s t h
  have hbytes : (String.ofList s).toByteArray = (String.ofList t).toByteArray := by
    rw [String.toByteArray_ofList, String.toByteArray_ofList, List.utf8Encode, List.utf8Encode]
    exact congrArg List.toByteArray h
  exact String.ofList_injective (String.toByteArray_inj.mp hbytes)

/-- The separator is a character of its own. -/
theorem digestInput_eq (atlas : Atlas) (record : LicenseRecord) :
    digestInput atlas record =
      asBytes ((hashedFields atlas record).flatMap fun field => field ++ [Char.ofNat 0]) := by
  rw [asBytes, List.flatMap_assoc]
  refine List.flatMap_congr fun field _ => ?_
  rw [List.flatMap_append]
  rfl

variable {atlas : Atlas} {pivot : ℕ} {columns columns' : ColumnMap} {row row' : List Text}
  {record record' : LicenseRecord} {field : Field} {t : Text}

/-! ### Cells -/

theorem isStorable_iff : isStorable t = true ↔ Char.ofNat 0 ∉ t := by
  simp only [isStorable, List.all_eq_true, decide_eq_true_eq]
  exact ⟨fun h hmem => h _ hmem rfl, fun h c hc heq => h (heq ▸ hc)⟩

/-- What is found of a field is some of a cell, and is not empty. -/
theorem get_eq_some (h : columns.get row field = some t) :
    t ≠ [] ∧ ∃ cell ∈ row, ∀ c ∈ t, c ∈ cell := by
  rw [ColumnMap.get, Option.filter_eq_some_iff, Option.map_eq_some_iff] at h
  obtain ⟨⟨cell, hcell, rfl⟩, hne⟩ := h
  obtain ⟨index, -, hrow⟩ := Option.bind_eq_some_iff.mp hcell
  refine ⟨by simpa using hne, cell, List.mem_of_getElem? hrow, fun c hc => ?_⟩
  exact Words.mem_of_mem_trim hc

theorem mem_asciiUpper {c : Char} (hc : c.isUpper = false) (h : c ∈ asciiUpper t) : c ∈ t := by
  obtain ⟨c', hmem, rfl⟩ := List.mem_map.mp h
  rcases Ascii.toUpper_cases c' with ⟨-, heq⟩ | ⟨-, hupper⟩
  · rwa [heq]
  · rw [hc] at hupper
    exact Bool.noConfusion hupper

/-! ### What a record can have -/

/-- The texts that a record may lack. -/
def LicenseRecord.optionalTexts (record : LicenseRecord) : List (Option Text) :=
  [record.businessType, record.workersCompStatus, record.addressLine1, record.city, record.state,
    record.postalCode, record.county, record.phone]

/-- A text that is not empty and has no zero byte. -/
def IsLegible (t : Text) : Prop := t ≠ [] ∧ Char.ofNat 0 ∉ t

/-- **The fields of a record can be told apart**: a text that is there is not empty, and neither is a
code, in which there is no comma; a date is a date; and nothing has a zero byte. -/
structure LicenseRecord.IsLegible (record : LicenseRecord) : Prop where
  businessName : Registry.IsLegible record.businessName
  statusRaw : Registry.IsLegible record.statusRaw
  texts : ∀ text ∈ record.optionalTexts, ∀ t ∈ text, Registry.IsLegible t
  codes : ∀ code ∈ record.classifications, Registry.IsLegible code ∧ ',' ∉ code
  issued : ∀ n ∈ record.issueDate, ∃ d : NaiveDate, d.number = n
  expires : ∀ n ∈ record.expirationDate, ∃ d : NaiveDate, d.number = n

/-- A field is legible where it is there. -/
theorem isLegible_of_get (hrow : ∀ cell ∈ row, isStorable cell = true)
    (h : t ∈ columns.get row field) : IsLegible t := by
  obtain ⟨hne, cell, hcell, hsub⟩ := get_eq_some h
  exact ⟨hne, fun hmem => isStorable_iff.mp (hrow cell hcell) (hsub _ hmem)⟩

/-- The letters of a state. -/
theorem IsLegible.state (h : IsLegible t) : IsLegible ((asciiUpper t).take 2) := by
  refine ⟨?_, fun hzero => h.2 (mem_asciiUpper (by decide) (List.mem_of_mem_take hzero))⟩
  obtain ⟨c, rest, rfl⟩ := List.exists_cons_of_ne_nil h.1
  exact List.cons_ne_nil _ _

/-- A postal code has five digits. -/
theorem IsLegible.postalCode (h : IsLegible t) {code : Text} (hcode : code ∈ normalisePostalCode t) :
    IsLegible code := by
  rw [normalisePostalCode] at hcode
  split at hcode
  next hlength =>
    obtain rfl := Option.some.inj hcode
    refine ⟨fun hnil => ?_, fun hzero => h.2 (List.mem_filter.mp (List.mem_of_mem_take hzero)).1⟩
    rw [hnil] at hlength
    exact absurd hlength (by decide)
  next => exact nomatch hcode

/-- The codes of a cell. -/
theorem IsLegible.codes (h : IsLegible t) {code : Text} (hcode : code ∈ parseClassifications t) :
    IsLegible code ∧ ',' ∉ code := by
  obtain ⟨part, hpart, rfl⟩ := List.mem_map.mp hcode
  obtain ⟨hpart, hne⟩ := List.mem_filter.mp hpart
  obtain ⟨piece, hpiece, rfl⟩ := List.mem_map.mp hpart
  have hsub : ∀ c ∈ trim piece, c ∈ t ∧ isCodeSeparator c = false := fun c hc =>
    Words.of_mem_splitOnP hpiece c (Words.mem_of_mem_trim hc)
  refine ⟨⟨by simpa [asciiUpper] using hne, fun hzero => ?_⟩, fun hcomma => ?_⟩
  · exact h.2 (hsub _ (mem_asciiUpper (by decide) hzero)).1
  · have hnot := (hsub ',' (mem_asciiUpper (by decide) hcomma)).2
    exact absurd hnot (by decide)

/-- The date of a cell. -/
theorem exists_date (h : atlas.KeepsDates pivot) {n : ℕ} {cell : Option Text}
    (hn : n ∈ cell.bind (parseDate atlas)) : ∃ d : NaiveDate, d.number = n := by
  obtain ⟨t, -, hread⟩ := Option.bind_eq_some_iff.mp hn
  rw [parseDate_eq h, Option.map_eq_some_iff] at hread
  obtain ⟨d, -, hd⟩ := hread
  exact ⟨d, hd⟩

/-- **The record of a row without zero bytes is legible.** -/
theorem isLegible_of_buildRecord (h : atlas.KeepsDates pivot)
    (hrow : ∀ cell ∈ row, isStorable cell = true)
    (hrecord : buildRecord atlas columns row = .ok record) : record.IsLegible := by
  obtain ⟨licenseNo, businessName, statusRaw, -, hname, hstatus, rfl⟩ := buildRecord_eq_ok hrecord
  refine ⟨isLegible_of_get hrow hname, isLegible_of_get hrow hstatus, ?_, ?_,
    fun _ hn => exists_date h hn, fun _ hn => exists_date h hn⟩
  · have hget : ∀ field, ∀ t ∈ columns.get row field, IsLegible t := fun _ _ ht =>
      isLegible_of_get hrow ht
    have hstate : ∀ t ∈ (columns.get row .state).map fun s => (asciiUpper s).take 2,
        IsLegible t := by
      intro t ht
      obtain ⟨s, hs, rfl⟩ := Option.map_eq_some_iff.mp ht
      exact (hget _ s hs).state
    have hpostal : ∀ t ∈ (columns.get row .postalCode).bind normalisePostalCode, IsLegible t := by
      intro t ht
      obtain ⟨s, hs, hcode⟩ := Option.bind_eq_some_iff.mp ht
      exact (hget _ s hs).postalCode hcode
    simp only [LicenseRecord.optionalTexts, recordOf, List.forall_mem_cons, List.not_mem_nil,
      false_imp_iff, implies_true, and_true]
    exact ⟨hget _, hget _, hget _, hget _, hstate, hpostal, hget _, hget _⟩
  · intro code hcode
    change code ∈ ((columns.get row .classifications).map parseClassifications).getD [] at hcode
    rcases hcell : columns.get row .classifications with _ | cell
    · rw [hcell] at hcode
      exact absurd hcode List.not_mem_nil
    · rw [hcell] at hcode
      exact (isLegible_of_get hrow hcell).codes hcode

/-! ### Fields and their texts -/

/-- Texts that are not empty where they are there. -/
theorem getD_nil_inj {x y : Option Text} (hx : ∀ t ∈ x, IsLegible t) (hy : ∀ t ∈ y, IsLegible t)
    (h : x.getD [] = y.getD []) : x = y := by
  rcases x with _ | s <;> rcases y with _ | t
  · rfl
  · exact absurd h.symm (hy t rfl).1
  · exact absurd h (hx s rfl).1
  · exact congrArg some h

theorem getD_storable {x : Option Text} (hx : ∀ t ∈ x, IsLegible t) :
    Char.ofNat 0 ∉ x.getD [] := by
  rcases x with _ | t
  · exact List.not_mem_nil
  · exact (hx t rfl).2

theorem zero_ne_digit {c : Char} (h : c.isDigit = true) : Char.ofNat 0 ≠ c := by
  rintro rfl
  exact absurd h (by decide)

/-- A date has a text. -/
theorem isLegible_date (h : atlas.KeepsDates pivot) {date : Option ℕ}
    (hdate : ∀ n ∈ date, ∃ d : NaiveDate, d.number = n) :
    ∀ t ∈ date.map atlas.formatDate, IsLegible t := by
  intro t ht
  obtain ⟨n, hn, rfl⟩ := Option.map_eq_some_iff.mp ht
  obtain ⟨d, rfl⟩ := hdate n hn
  rw [h.writes]
  refine ⟨text_ne_nil d, fun hzero => ?_⟩
  rcases of_mem_text hzero with hdigit | hdash | hplus
  · exact zero_ne_digit hdigit rfl
  · exact absurd hdash (by decide)
  · exact absurd hplus (by decide)

/-- Dates of one text are one date. -/
theorem formatDate_inj (h : atlas.KeepsDates pivot) {date date' : Option ℕ}
    (hdate : ∀ n ∈ date, ∃ d : NaiveDate, d.number = n)
    (hdate' : ∀ n ∈ date', ∃ d : NaiveDate, d.number = n)
    (heq : date.map atlas.formatDate = date'.map atlas.formatDate) : date = date' := by
  rcases date with _ | n <;> rcases date' with _ | n'
  · rfl
  · exact nomatch heq
  · exact nomatch heq
  · obtain ⟨d, rfl⟩ := hdate n rfl
    obtain ⟨d', rfl⟩ := hdate' n' rfl
    rw [Option.map_some, Option.map_some, h.writes, h.writes] at heq
    rw [text_injective (Option.some.inj heq)]

/-- An amount is written with digits. -/
theorem isLegible_cents (cents : Option ℕ) :
    ∀ t ∈ cents.map fun cents => (toString cents).toList, IsLegible t := by
  intro t ht
  obtain ⟨n, -, rfl⟩ := Option.map_eq_some_iff.mp ht
  have hdigits : (toString n).toList = Nat.toDigits 10 n := Nat.toList_repr
  rw [hdigits]
  exact ⟨Nat.toDigits_ne_nil, fun hzero =>
    zero_ne_digit (Nat.isDigit_of_mem_toDigits (by omega) (by omega) hzero) rfl⟩

theorem cents_injective : Function.Injective fun cents : ℕ => (toString cents).toList := by
  intro m n h
  have hdigits : Nat.toDigits 10 m = Nat.toDigits 10 n := by
    rw [← Nat.toList_repr, ← Nat.toList_repr]
    exact h
  rw [← Nat.ofDigitChars_ten_toDigits (n := m), hdigits, Nat.ofDigitChars_ten_toDigits]

theorem asStr_storable (status : LicenseStatus) : Char.ofNat 0 ∉ status.asStr := by
  cases status <;> decide

theorem asStr_injective : Function.Injective LicenseStatus.asStr := by
  intro status status' h
  cases status <;> cases status' <;> first | rfl | exact absurd h (by decide)

/-- **No hashed field has the separator in it.** -/
theorem LicenseRecord.IsLegible.storable (h : atlas.KeepsDates pivot) (hlegible : record.IsLegible) :
    ∀ t ∈ hashedFields atlas record, Char.ofNat 0 ∉ t := by
  obtain ⟨hname, hstatus, htexts, hcodes, hissued, hexpires⟩ := hlegible
  simp only [LicenseRecord.optionalTexts, List.forall_mem_cons, List.not_mem_nil, false_imp_iff,
    implies_true, and_true] at htexts
  obtain ⟨htype, hcomp, haddress, hcity, hstate, hpostal, hcounty, hphone⟩ := htexts
  have hjoined : Char.ofNat 0 ∉ [','].intercalate record.classifications := by
    intro hzero
    rcases Words.mem_join hzero with hcomma | ⟨code, hcode, hzero⟩
    · exact absurd hcomma (by decide)
    · exact (hcodes code hcode).1.2 hzero
  simp only [hashedFields, List.forall_mem_cons, List.not_mem_nil, false_imp_iff, implies_true,
    and_true]
  exact ⟨hname.2, getD_storable htype, asStr_storable _, hstatus.2,
    getD_storable (isLegible_date h hissued), getD_storable (isLegible_date h hexpires), hjoined,
    getD_storable (isLegible_cents _), getD_storable hcomp, getD_storable haddress,
    getD_storable hcity, getD_storable hstate, getD_storable hpostal, getD_storable hcounty,
    getD_storable hphone⟩

/-- The codes that are joined are found again. -/
theorem classifications_inj (hlegible : record.IsLegible) (hlegible' : record'.IsLegible)
    (h : [','].intercalate record.classifications = [','].intercalate record'.classifications) :
    record.classifications = record'.classifications := by
  have hsplit : ∀ r : LicenseRecord, r.IsLegible →
      Words.split (· = ',') ([','].intercalate r.classifications) = r.classifications := by
    intro r hr
    refine Words.split_join (by decide) (fun code hcode => (hr.codes code hcode).1.1)
      fun code hcode c hc => decide_eq_false ?_
    rintro rfl
    exact (hr.codes code hcode).2 hc
  rw [← hsplit record hlegible, h, hsplit record' hlegible']

/-- **The fields of a record are found again in what is hashed of them.** -/
theorem hashedFields_inj (h : atlas.KeepsDates pivot) (hlegible : record.IsLegible)
    (hlegible' : record'.IsLegible) (heq : hashedFields atlas record = hashedFields atlas record') :
    SameHashed record record' := by
  have htexts := hlegible.texts
  have htexts' := hlegible'.texts
  simp only [LicenseRecord.optionalTexts, List.forall_mem_cons, List.not_mem_nil, false_imp_iff,
    implies_true, and_true] at htexts htexts'
  obtain ⟨htype, hcomp, haddress, hcity, hstate, hpostal, hcounty, hphone⟩ := htexts
  obtain ⟨htype', hcomp', haddress', hcity', hstate', hpostal', hcounty', hphone'⟩ := htexts'
  simp only [hashedFields, List.cons.injEq, and_true] at heq
  obtain ⟨name, type, status, statusRaw, issued, expires, codes, cents, comp, address, city, state,
    postal, county, phone⟩ := heq
  have hissued := formatDate_inj h hlegible.issued hlegible'.issued
    (getD_nil_inj (isLegible_date h hlegible.issued) (isLegible_date h hlegible'.issued) issued)
  have hexpires := formatDate_inj h hlegible.expires hlegible'.expires
    (getD_nil_inj (isLegible_date h hlegible.expires) (isLegible_date h hlegible'.expires) expires)
  have hcents := Option.map_injective cents_injective
    (getD_nil_inj (isLegible_cents _) (isLegible_cents _) cents)
  have hcodes := classifications_inj hlegible hlegible' codes
  rw [SameHashed, LicenseRecord.mk.injEq]
  exact ⟨rfl, name, getD_nil_inj htype htype' type, asStr_injective status, statusRaw, hissued,
    hexpires, hcodes, hcents, getD_nil_inj hcomp hcomp' comp, getD_nil_inj haddress haddress' address,
    getD_nil_inj hcity hcity' city, getD_nil_inj hstate hstate' state,
    getD_nil_inj hpostal hpostal' postal, getD_nil_inj hcounty hcounty' county,
    getD_nil_inj hphone hphone' phone, rfl, rfl⟩

/-- **The digest of a record is made from its fields**: of two records that are built from rows
without zero bytes, it is made from the same bytes if the hashed fields are the same, and only
then. -/
theorem digestInput_eq_iff (h : atlas.KeepsDates pivot)
    (hrow : ∀ cell ∈ row, isStorable cell = true) (hrow' : ∀ cell ∈ row', isStorable cell = true)
    (hrecord : buildRecord atlas columns row = .ok record)
    (hrecord' : buildRecord atlas columns' row' = .ok record') :
    digestInput atlas record = digestInput atlas record' ↔ SameHashed record record' := by
  have hlegible := isLegible_of_buildRecord h hrow hrecord
  have hlegible' := isLegible_of_buildRecord h hrow' hrecord'
  constructor
  · intro heq
    rw [digestInput_eq, digestInput_eq] at heq
    exact hashedFields_inj h hlegible hlegible' (Words.flatMap_concat_inj (hlegible.storable h)
      (hlegible'.storable h) (asBytes_injective heq))
  · intro hsame
    rw [hsame]
    rfl

/-- The columns of a short licence file. -/
def shortColumns : ColumnMap :=
  let headers :=
    ["LicenseNo".toList, "BusinessName".toList, "PrimaryStatus".toList, "ExpirationDate".toList]
  { columns := fun field => field.column headers
    headers := headers
    complete := by decide }

/-- A licence before and after it was renewed. -/
theorem digestInput_renewed : ∃ record record',
    buildRecord (Atlas.dated 69) shortColumns
      ["42".toList, "Acme".toList, "CLEAR".toList, "12/31/2023".toList] = .ok record ∧
    buildRecord (Atlas.dated 69) shortColumns
      ["42".toList, "Acme".toList, "CLEAR".toList, " 12/31/2025".toList] = .ok record' ∧
    (digestInput (Atlas.dated 69) record = digestInput (Atlas.dated 69) record' ↔
      SameHashed record record') := by
  obtain ⟨record, hrecord⟩ : ∃ record, buildRecord (Atlas.dated 69) shortColumns
      ["42".toList, "Acme".toList, "CLEAR".toList, "12/31/2023".toList] = .ok record := ⟨_, rfl⟩
  obtain ⟨record', hrecord'⟩ : ∃ record, buildRecord (Atlas.dated 69) shortColumns
      ["42".toList, "Acme".toList, "CLEAR".toList, " 12/31/2025".toList] = .ok record := ⟨_, rfl⟩
  exact ⟨record, record', hrecord, hrecord', digestInput_eq_iff (keepsDates_dated 69) (by decide)
    (by decide) hrecord hrecord'⟩

end Marketplace.Registry
