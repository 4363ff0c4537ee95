import Marketplace.Registry.Licenses

/-!
# Reading a licence file

A licence file is a row of headers and rows of data. The columns that are needed are found under
any of several spellings of their headers, and a file without the required ones is refused
(`Marketplace.Registry.ColumnMap.build`). A row is then a licence, or it is rejected, for the
reason that something mandatory is missing from it (`Marketplace.Registry.buildRecord`).

What is read of a classification is not what is compared: the codes of the register come with and
without punctuation, and are compared without it.
-/

namespace Marketplace.Registry

/-! ### Texts -/

/-- `to_ascii_uppercase`. -/
def asciiUpper (s : Text) : Text := s.map Char.toUpper

/-- `normalise_header`. -/
def normaliseHeader (header : Text) : Text := (header.filter Char.isAlphanum).map Char.toLower

/-- `normalise_classification`. -/
def normaliseClassification (code : Text) : Text := (code.filter Char.isAlphanum).map Char.toUpper

/-! ### Columns -/

/-- The fields that the importer needs. -/
inductive Field
  | licenseNo
  | businessName
  | status
  | businessType
  | issueDate
  | expirationDate
  | classifications
  | addressLine1
  | city
  | state
  | postalCode
  | county
  | phone
  | bondAmount
  | workersComp
  deriving DecidableEq

/-- The name of a field. -/
def Field.name : Field → String
  | .licenseNo => "license_no"
  | .businessName => "business_name"
  | .status => "status"
  | .businessType => "business_type"
  | .issueDate => "issue_date"
  | .expirationDate => "expiration_date"
  | .classifications => "classifications"
  | .addressLine1 => "address_line1"
  | .city => "city"
  | .state => "state"
  | .postalCode => "postal_code"
  | .county => "county"
  | .phone => "phone"
  | .bondAmount => "bond_amount"
  | .workersComp => "workers_comp"

/-- `FIELD_ALIASES`: the headers that are accepted for a field, once they are normalised. -/
def Field.aliases : Field → List String
  | .licenseNo => ["licenseno", "licensenumber", "license", "licnum", "lic"]
  | .businessName => ["businessname", "name", "bizname", "dbaname", "doingbusinessas"]
  | .status => ["primarystatus", "licensestatus", "status"]
  | .businessType => ["businesstype", "entitytype", "biztype"]
  | .issueDate => ["issuedate", "originalissuedate", "issuedt"]
  | .expirationDate => ["expirationdate", "expdate", "expirationdt"]
  | .classifications =>
    ["classificationss", "classifications", "classification", "class", "classificationcodes",
      "classcodes"]
  | .addressLine1 =>
    ["mailingaddress", "address", "addressline1", "streetaddress", "businessaddress", "address1"]
  | .city => ["city", "mailingcity", "businesscity"]
  | .state => ["state", "mailingstate", "businessstate"]
  | .postalCode => ["zipcode", "zip", "postalcode", "mailingzip", "businesszip"]
  | .county => ["county", "mailingcounty", "businesscounty"]
  | .phone => ["businessphone", "phone", "phonenumber", "telephone"]
  | .bondAmount => ["bondamount", "cbamount", "contractorbondamount"]
  | .workersComp =>
    ["workerscompcoveragetype", "wccoveragetype", "workerscompensation", "workerscomp"]

/-- `REQUIRED`. -/
def required : List Field := [.licenseNo, .businessName, .status]

/-- The column of a field, in a row of headers. -/
def Field.column (headers : List Text) (field : Field) : Option ℕ :=
  headers.findIdx? fun header => field.aliases.any fun name => name.toList = normaliseHeader header

/-- **The columns of a file**, in which those of the required fields are. -/
structure ColumnMap where
  columns : Field → Option ℕ
  headers : List Text
  complete : ∀ field ∈ required, (columns field).isSome = true

namespace ColumnMap

/-- The required fields that a row of headers has no column for. -/
def missing (headers : List Text) : List Field :=
  required.filter fun field => (field.column headers).isNone

/-- The message of a file that is refused. -/
def missingText (atlas : Atlas) (headers : List Text) : String :=
  "the file is missing required column(s) " ++
    String.ofList (atlas.formatTexts ((missing headers).map fun field => field.name.toList)) ++
    ". Columns found: " ++ String.ofList (atlas.formatTexts headers) ++
    ". If CSLB has renamed a column, add the new name to FIELD_ALIASES."

/-- `ColumnMap::build`. -/
def build (atlas : Atlas) (headers : List Text) : Except AppError ColumnMap :=
  if h : missing headers = [] then
    .ok
      { columns := fun field => field.column headers
        headers := headers
        complete := fun field hfield => by
          have hfound := List.filter_eq_nil_iff.mp h field hfield
          simpa [Option.isSome_iff_ne_none] using hfound }
  else .error (.invalid (missingText atlas headers))

/-- `ColumnMap::get`: the text of a field, trimmed, if there is anything left of it. -/
def get (columns : ColumnMap) (row : List Text) (field : Field) : Option Text :=
  (((columns.columns field).bind fun index => row[index]?).map trim).filter
    fun value => !value.isEmpty

end ColumnMap

/-! ### Values -/

/-- `map_status`: the negative cases come first, since they contain the positive one. -/
def mapStatus (raw : Text) : LicenseStatus :=
  let upper := asciiUpper raw
  if "INACTIVE".toList <:+: upper then .inactive
  else if "SUSP".toList <:+: upper then .suspended
  else if "EXPIR".toList <:+: upper then .expired
  else if "CLEAR".toList <:+: upper ∨ "ACTIVE".toList <:+: upper then .active
  else .unknown

/-- The formats of a date. -/
def dateFormats : List String := ["%Y-%m-%d", "%m/%d/%Y", "%d-%b-%Y", "%Y%m%d", "%m/%d/%y"]

/-- `parse_date`. -/
def parseDate (atlas : Atlas) (value : Text) : Option ℕ :=
  dateFormats.findSome? fun format => atlas.parseFromStr format value

/-- `parse_money_cents`. -/
def parseMoneyCents (atlas : Atlas) (value : Text) : Option ℕ :=
  let cleaned := value.filter fun c => c.isDigit || c = '.'
  if cleaned.isEmpty then none else atlas.parseAmount cleaned

/-- What stands between the codes of a cell. -/
def isCodeSeparator (c : Char) : Bool := c ∈ [',', ';', '/', ' ', '|']

/-- `parse_classifications`. -/
def parseClassifications (value : Text) : List Text :=
  (((value.splitOnP isCodeSeparator).map trim).filter fun part => !part.isEmpty).map asciiUpper

/-- `normalise_postal_code`. -/
def normalisePostalCode (value : Text) : Option Text :=
  let digits := (value.filter Char.isDigit).take 5
  if digits.length = 5 then some digits else none

/-! ### Records -/

/-- The fields that the digest of a record is made from. -/
def hashedFields (atlas : Atlas) (record : LicenseRecord) : List Text :=
  [record.businessName, record.businessType.getD [], record.status.asStr, record.statusRaw,
    (record.issueDate.map atlas.formatDate).getD [],
    (record.expirationDate.map atlas.formatDate).getD [],
    [','].intercalate record.classifications,
    (record.bondAmountCents.map fun cents => (toString cents).toList).getD [],
    record.workersCompStatus.getD [], record.addressLine1.getD [], record.city.getD [],
    record.state.getD [], record.postalCode.getD [], record.county.getD [], record.phone.getD []]

/-- `content_hash`. -/
def contentHash (atlas : Atlas) (record : LicenseRecord) : Digest :=
  atlas.fieldsHash (hashedFields atlas record)

/-- The source row as an object; of columns with the same header, the last one stays. -/
def rawObject (headers row : List Text) : List (Text × Text) :=
  headers.zipIdx.foldl
    (fun raw column =>
      raw.filter (fun entry => entry.1 ≠ column.1) ++ [(column.1, (row[column.2]?).getD [])])
    []

/-- The record of a row that has everything mandatory, before its digest is computed. -/
def recordOf (atlas : Atlas) (columns : ColumnMap) (row : List Text)
    (licenseNo businessName statusRaw : Text) : LicenseRecord where
  licenseNo := licenseNo
  businessName := businessName
  businessType := columns.get row .businessType
  status := mapStatus statusRaw
  statusRaw := statusRaw
  issueDate := (columns.get row .issueDate).bind (parseDate atlas)
  expirationDate := (columns.get row .expirationDate).bind (parseDate atlas)
  classifications := ((columns.get row .classifications).map parseClassifications).getD []
  bondAmountCents := (columns.get row .bondAmount).bind (parseMoneyCents atlas)
  workersCompStatus := columns.get row .workersComp
  addressLine1 := columns.get row .addressLine1
  city := columns.get row .city
  state := (columns.get row .state).map fun s => (asciiUpper s).take 2
  postalCode := (columns.get row .postalCode).bind normalisePostalCode
  county := columns.get row .county
  phone := columns.get row .phone
  raw := rawObject columns.headers row

/-- **`build_record`**: the record of a row, or why it is rejected. -/
def buildRecord (atlas : Atlas) (columns : ColumnMap) (row : List Text) :
    Except String LicenseRecord :=
  match columns.get row .licenseNo, columns.get row .businessName, columns.get row .status with
  | none, _, _ => .error "no licence number"
  | some _, none, _ => .error "no business name"
  | some _, some _, none => .error "no status"
  | some licenseNo, some businessName, some statusRaw =>
    let record := recordOf atlas columns row licenseNo businessName statusRaw
    .ok { record with contentHash := contentHash atlas record }

end Marketplace.Registry
